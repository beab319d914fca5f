import DedupCommando.Store.ExportStream
import DedupCommando.Store.SweepReport

/-!
# The export against the trusted readers

What the one joined stream of an export hands over, group by group, is what `summaries` and `group`
answer for the same snapshot.

* `ExportSource.group` — `group` over the cells as they are stored.
* `Printed` — one row whose printed cells are all in their domain.
* `loop_blocks` — the loop over rows that come in blocks of one rank each.
* `exportRows_blocks` — the statement's rows are the summaries' member rows, block after block.
* `export_matches` — the result.
-/

set_option autoImplicit false

namespace DedupCommando

open Sql (Value)

/-! ## The reader of one group -/

/-- `group_file_row` over the cells of an export source. -/
def entryRow (src : ExportSource) (f : FileRow) : Except String MarkedEntry := do
  let cells := src.columns f.path
  let mark := src.markOf f
  let path ← getText f.path
  let size ← getInteger f.size
  let mtime ← getInteger cells.mtime
  let mtimeNsec ← getInteger cells.mtimeNsec
  let ctimeSec ← getInteger cells.ctimeSec
  let ctimeNsec ← getInteger cells.ctimeNsec
  let device ← getInteger cells.device
  let inode ← getInteger cells.inode
  let keeper ← getOptInteger (cellOf MarkRow.isKeeper mark)
  let action ← getOptText (cellOf MarkRow.action mark)
  return {
    path := path
    size := castU64 size
    mtime := mtime
    mtimeNsec := mtimeNsec
    ctimeSec := ctimeSec
    ctimeNsec := ctimeNsec
    device := castU64 device
    inode := castU64 inode
    nlink := (match linkCountFromSql f.nlink with
      | .ok n => n
      | .error _ => .unknown).toU64
    isKeeper := decide (keeper.getD 0 ≠ 0)
    action := action.bind ActionKind.parse }

def entryRows (src : ExportSource) : List FileRow → Except String (List MarkedEntry)
  | [] => .ok []
  | f :: fs =>
    match entryRow src f with
    | .error e => .error e
    | .ok entry =>
      match entryRows src fs with
      | .error e => .error e
      | .ok entries => .ok (entry :: entries)

/-- `group` -/
def ExportSource.group (src : ExportSource) (id : GroupId) :
    Except MembershipMiss (List MarkedEntry) :=
  match src.snapshot.requireCurrent id with
  | .error e => .error e
  | .ok () =>
    match (src.snapshot.tables.groupsAt (.integer id.rank)).head? with
    | none => .error .noSuchGroup
    | some g =>
      match readSummary g with
      | .error e => .error e
      | .ok (_, declared) =>
        match entryRows src (src.snapshot.memberRows id.rank) with
        | .error e => .error (.store e)
        | .ok members =>
          if members.length ≠ declared then
            .error (.inconsistent (s!"group rank {id.rank} returned {members.length} members " ++
              s!"against a declared {declared}"))
          else .ok members

section
variable {src : ExportSource}

/-- The columns are the integers of the rows. -/
def ExportSource.Whole (src : ExportSource) : Prop :=
  ∀ f ∈ src.snapshot.tables.file, src.columns f.path =
    ⟨.integer f.mtime, .integer f.mtimeNsec, .integer f.ctimeSec, .integer f.ctimeNsec,
      .integer f.device, .integer f.inode⟩

theorem entryRow_eq {f : FileRow} (h : src.columns f.path =
    ⟨.integer f.mtime, .integer f.mtimeNsec, .integer f.ctimeSec, .integer f.ctimeNsec,
      .integer f.device, .integer f.inode⟩) :
    entryRow src f = groupFileRow src.snapshot.scanId src.marks f := by
  unfold entryRow groupFileRow ExportSource.markOf
  rw [h]
  simp only [getInteger, bind, Except.bind]
  cases getText f.path with
  | error e => rfl
  | ok path =>
    cases f.size <;> try rfl
    dsimp only
    cases getOptInteger (cellOf MarkRow.isKeeper (src.marks.find? fun m =>
        decide (m.scanId = src.snapshot.scanId) && Value.same m.path f.path)) with
    | error e => rfl
    | ok keeper =>
      cases getOptText (cellOf MarkRow.action (src.marks.find? fun m =>
          decide (m.scanId = src.snapshot.scanId) && Value.same m.path f.path)) <;> rfl

theorem entryRows_eq {fs : List FileRow} (h : ∀ f ∈ fs,
    entryRow src f = groupFileRow src.snapshot.scanId src.marks f) :
    entryRows src fs = groupFileRows src.snapshot.scanId src.marks fs := by
  induction fs with
  | nil => rfl
  | cons f fs ih =>
    have hrow := h f List.mem_cons_self
    have hrest := ih fun f hf => h f (List.mem_cons_of_mem _ hf)
    unfold entryRows groupFileRows
    cases hr : groupFileRow src.snapshot.scanId src.marks f with
    | error e => simp [hrow, hr]
    | ok entry =>
      cases hs : groupFileRows src.snapshot.scanId src.marks fs with
      | error e => simp [hrow, hr, hrest, hs]
      | ok entries => simp [hrow, hr, hrest, hs]

/-- **Over integer columns it is the reader of the browser.** -/
theorem group_eq (h : src.Whole) (id : GroupId) :
    src.group id = src.snapshot.group src.marks id := by
  have hrows : entryRows src (src.snapshot.memberRows id.rank) =
      groupFileRows src.snapshot.scanId src.marks (src.snapshot.memberRows id.rank) :=
    entryRows_eq fun f hf => entryRow_eq (h f (member_file hf))
  unfold ExportSource.group Snapshot.group
  cases src.snapshot.requireCurrent id with
  | error e => simp
  | ok _ =>
    cases (src.snapshot.tables.groupsAt (.integer id.rank)).head? with
    | none => simp
    | some g =>
      cases hs : readSummary g with
      | error e => simp [hs]
      | ok summary =>
        cases hr : groupFileRows src.snapshot.scanId src.marks (src.snapshot.memberRows id.rank) with
        | error e => simp [hs, hrows, hr]
        | ok members => simp [hs, hrows, hr]

end

/-! ## Rows in their domain -/

/-- A row whose printed cells are in their domain, with what is printed of them. -/
structure Printed (src : ExportSource) (row : ExportRow) (m : ExportMember) (hash : String) : Prop where
  path : getText row.file.path = .ok m.path
  named : m.path ≠ []
  mark : decodeMark m.path row.mark.isSome (cellOf MarkRow.isKeeper row.mark)
    (cellOf MarkRow.action row.mark) = .ok m.mark
  summarySize : ∃ n, row.group.size = .integer n ∧ 0 ≤ n ∧ m.size = castU64 n
  memberSize : ∃ n, row.file.size = .integer n ∧ 0 ≤ n ∧ m.size = castU64 n
  mtime : (src.columns row.file.path).mtime = .integer m.mtime
  mtimeNsec : (src.columns row.file.path).mtimeNsec = .integer m.mtimeNsec ∧ 0 ≤ m.mtimeNsec ∧
    m.mtimeNsec < 1000000000
  device : ∃ n, (src.columns row.file.path).device = .integer n ∧ 0 ≤ n ∧ m.device = castU64 n
  inode : ∃ n, (src.columns row.file.path).inode = .integer n ∧ 0 ≤ n ∧ m.inode = castU64 n
  links : ∃ n, linkCountFromSql row.file.nlink = .ok n ∧ m.links = n.toU64
  hash : getString row.group.hash = .ok hash

theorem nonnegativeCell_ok {v : Value} {field : String} {path : Bytes} {n : Nat} :
    nonnegativeCell v field path = .ok n ↔ ∃ raw, v = .integer raw ∧ 0 ≤ raw ∧ n = castU64 raw := by
  unfold nonnegativeCell
  cases v with
  | integer raw =>
    by_cases h : 0 ≤ raw
    · simp [h, eq_comm]
    · simp [h]
  | _ => simp

theorem nanosecondsCell_ok {v : Value} {path : Bytes} {n : Int} :
    nanosecondsCell v path = .ok n ↔ v = .integer n ∧ 0 ≤ n ∧ n < 1000000000 := by
  unfold nanosecondsCell
  cases v with
  | integer raw =>
    by_cases h : 0 ≤ raw ∧ raw < 1000000000
    · simp only [h, and_self, if_true, Except.ok.injEq, Value.integer.injEq]
      constructor
      · rintro rfl
        exact ⟨rfl, h⟩
      · exact fun hn => hn.1
    · simp only [h, if_false, reduceCtorEq, false_iff, Value.integer.injEq]
      rintro ⟨rfl, hn⟩
      exact h hn
  | _ => simp

/-- A row is handed on only if every cell that is printed of it is in its domain. -/
theorem readExportMember_ok {src : ExportSource} {rank : Int} {row : ExportRow} {m : ExportMember}
    {hash : String} (h : readExportMember src rank row = .ok (m, hash)) : Printed src row m hash := by
  unfold readExportMember at h
  cases hpath : getText row.file.path with
  | error e => simp [hpath] at h
  | ok path =>
    by_cases hnil : path = []
    · simp [hpath, hnil] at h
    cases hmark : decodeMark path row.mark.isSome (cellOf MarkRow.isKeeper row.mark)
        (cellOf MarkRow.action row.mark) with
    | error e => simp [hpath, hnil, hmark] at h
    | ok mark =>
      cases hsummary : nonnegativeCell row.group.size "file_group.size" path with
      | error e => simp [hpath, hnil, hmark, hsummary] at h
      | ok summarySize =>
        cases hmember : nonnegativeCell row.file.size "file.size" path with
        | error e => simp [hpath, hnil, hmark, hsummary, hmember] at h
        | ok memberSize =>
          by_cases hsize : summarySize = memberSize
          swap
          · simp [hpath, hnil, hmark, hsummary, hmember, hsize] at h
          simp only [hpath, hnil, hmark, hsummary, hmember, hsize, if_false, ne_eq, not_true] at h
          cases hmtime : getInteger (src.columns row.file.path).mtime with
          | error e => simp [hmtime] at h
          | ok mtime =>
            cases hnsec : nanosecondsCell (src.columns row.file.path).mtimeNsec path with
            | error e => simp [hmtime, hnsec] at h
            | ok mtimeNsec =>
              cases hdevice : nonnegativeCell (src.columns row.file.path).device "file.device" path with
              | error e => simp [hmtime, hnsec, hdevice] at h
              | ok device =>
                cases hinode : nonnegativeCell (src.columns row.file.path).inode "file.inode" path with
                | error e => simp [hmtime, hnsec, hdevice, hinode] at h
                | ok inode =>
                  cases hlinks : linkCountFromSql row.file.nlink with
                  | error e => simp [hmtime, hnsec, hdevice, hinode, hlinks] at h
                  | ok links =>
                    cases hhash : getString row.group.hash with
                    | error e => simp [hmtime, hnsec, hdevice, hinode, hlinks, hhash] at h
                    | ok text =>
                      simp only [hmtime, hnsec, hdevice, hinode, hlinks, hhash, Except.ok.injEq,
                        Prod.mk.injEq] at h
                      obtain ⟨rfl, rfl⟩ := h
                      exact {
                        path := hpath
                        named := hnil
                        mark := hmark
                        summarySize := nonnegativeCell_ok.mp (hsize ▸ hsummary)
                        memberSize := nonnegativeCell_ok.mp hmember
                        mtime := getInteger_ok.mp hmtime
                        mtimeNsec := nanosecondsCell_ok.mp hnsec
                        device := nonnegativeCell_ok.mp hdevice
                        inode := nonnegativeCell_ok.mp hinode
                        links := ⟨links, hlinks, rfl⟩
                        hash := hhash }

/-! ## The loop over blocks -/

section
variable {α : Type} {src : ExportSource} {t : ExportTotals} {gs : List ExportGroup}

/-- What the rows of one rank become. -/
structure BlockGroup (src : ExportSource) (rank : Int) (rows : List ExportRow) (g : ExportGroup) :
    Prop where
  id : g.id = ⟨src.snapshot.scanId, rank, src.snapshot.generation⟩
  hash : ∃ row ∈ rows, getString row.group.hash = .ok g.hash
  members : List.Forall₂ (fun row m => ∃ hash, Printed src row m hash) rows g.members

/-- More rows of the rank in hand are more members of the group in hand. -/
theorem loop_rows {rank : Int} {rest : List ExportRow} : ∀ {rows : List ExportRow}
    {g : ExportGroup} {totals : ExportTotals} {done : List ExportGroup},
    (∀ row ∈ rows, row.rank = .integer rank) → g.id.rank = rank →
    exportLoop src collected (some g) totals done (rows ++ rest) = .ok (t, gs) →
    ∃ ms, List.Forall₂ (fun row m => ∃ hash, Printed src row m hash) rows ms ∧
      exportLoop src collected (some { g with members := g.members ++ ms }) totals done rest =
        .ok (t, gs) := by
  intro rows
  induction rows with
  | nil =>
    intro g totals done _ _ h
    exact ⟨[], .nil, by simpa using h⟩
  | cons row rows ih =>
    intro g totals done hrank hg h
    obtain ⟨n, hn, cur', totals', mid, hclose, m, hash, hread, hrest⟩ := exportLoop_cons.mp h
    rw [hrank row List.mem_cons_self] at hn
    obtain rfl : rank = n := Except.ok.inj hn
    simp only [closeGroup, hg, ne_eq, not_true, if_false, Except.ok.injEq, Prod.mk.injEq] at hclose
    obtain ⟨rfl, rfl, rfl⟩ := hclose
    obtain ⟨ms, hms, hloop⟩ := ih (fun r hr => hrank r (List.mem_cons_of_mem _ hr))
      (g := pushMember src rank (some g) m hash) hg hrest
    refine ⟨m :: ms, .cons ⟨hash, readExportMember_ok hread⟩ hms, ?_⟩
    simpa [pushMember] using hloop

/-- The totals behind the groups that were handed over. -/
def ExportTotals.addAll (totals : ExportTotals) (groups : List ExportGroup) : ExportTotals :=
  ⟨totals.groups + groups.length, totals.rows + (groups.map fun g => g.members.length).sum⟩

theorem addAll_append (totals : ExportTotals) (groups more : List ExportGroup) :
    (totals.addAll groups).addAll more = totals.addAll (groups ++ more) := by
  unfold ExportTotals.addAll
  simp only [List.length_append, List.map_append, List.sum_append, ExportTotals.mk.injEq]
  omega

/-- **The loop over blocks of one rank each** hands over one group for every block with a row. -/
theorem loop_blocks (rankOf : α → Int) (rowsOf : α → List ExportRow) : ∀ {blocks : List α}
    {cur : Option ExportGroup} {totals : ExportTotals} {done : List ExportGroup},
    (blocks.map rankOf).Nodup → (∀ b ∈ blocks, ∀ row ∈ rowsOf b, row.rank = .integer (rankOf b)) →
    (∀ g, cur = some g → g.id.rank ∉ blocks.map rankOf) →
    exportLoop src collected cur totals done (blocks.flatMap rowsOf) = .ok (t, gs) →
    ∃ built, List.Forall₂ (fun b g => BlockGroup src (rankOf b) (rowsOf b) g)
        (blocks.filter fun b => !(rowsOf b).isEmpty) built ∧
      gs = done ++ (cur.toList ++ built) ∧ t = totals.addAll (cur.toList ++ built) := by
  intro blocks
  induction blocks with
  | nil =>
    intro cur totals done _ _ _ h
    refine ⟨[], .nil, ?_⟩
    cases cur with
    | none =>
      simp only [List.flatMap_nil, exportLoop, Except.ok.injEq, Prod.mk.injEq] at h
      obtain ⟨rfl, rfl⟩ := h
      simp [ExportTotals.addAll]
    | some g =>
      simp only [List.flatMap_nil, exportLoop, collected, Except.ok.injEq, Prod.mk.injEq] at h
      obtain ⟨rfl, rfl⟩ := h
      simp [ExportTotals.addAll, ExportTotals.add]
  | cons b blocks ih =>
    intro cur totals done hnodup hrows hcur h
    rw [List.map_cons, List.nodup_cons] at hnodup
    have hrows' : ∀ b' ∈ blocks, ∀ row ∈ rowsOf b', row.rank = .integer (rankOf b') :=
      fun b' hb' => hrows b' (List.mem_cons_of_mem _ hb')
    rw [List.flatMap_cons] at h
    cases hb : rowsOf b with
    | nil =>
      rw [hb, List.nil_append] at h
      obtain ⟨built, hbuilt, hgs, ht⟩ := ih hnodup.2 hrows'
        (fun g hg hin => hcur g hg (List.mem_cons_of_mem _ hin)) h
      exact ⟨built, by simpa [hb] using hbuilt, hgs, ht⟩
    | cons row rows =>
      rw [hb, List.cons_append] at h
      have hrank : ∀ r ∈ row :: rows, r.rank = .integer (rankOf b) :=
        fun r hr => hrows b List.mem_cons_self r (hb ▸ hr)
      obtain ⟨n, hn, cur', totals', mid, hclose, m, hash, hread, hrest⟩ := exportLoop_cons.mp h
      rw [hrank row List.mem_cons_self] at hn
      obtain rfl : rankOf b = n := Except.ok.inj hn
      -- what was in hand is of another rank, so it is handed over
      have hclosed : cur' = none ∧ mid = done ++ cur.toList ∧ totals' = totals.addAll cur.toList := by
        cases cur with
        | none =>
          simp only [closeGroup, Except.ok.injEq, Prod.mk.injEq] at hclose
          obtain ⟨rfl, rfl, rfl⟩ := hclose
          simp [ExportTotals.addAll]
        | some g =>
          have hne : g.id.rank ≠ rankOf b := fun he =>
            hcur g rfl (he ▸ List.mem_cons_self)
          simp only [closeGroup, if_pos hne, collected, Except.ok.injEq, Prod.mk.injEq] at hclose
          obtain ⟨rfl, rfl, rfl⟩ := hclose
          simp [ExportTotals.addAll, ExportTotals.add]
      obtain ⟨rfl, rfl, rfl⟩ := hclosed
      obtain ⟨ms, hms, hloop⟩ := loop_rows (fun r hr => hrank r (List.mem_cons_of_mem _ hr))
        (g := pushMember src (rankOf b) none m hash) rfl hrest
      obtain ⟨built, hbuilt, hgs, ht⟩ := ih hnodup.2 hrows' (fun g hg => by
        cases hg
        exact hnodup.1) hloop
      refine ⟨⟨⟨src.snapshot.scanId, rankOf b, src.snapshot.generation⟩, hash, m :: ms⟩ :: built,
        ?_, ?_, ?_⟩
      · rw [List.filter_cons_of_pos (by simp [hb])]
        have hprinted := readExportMember_ok hread
        refine .cons ⟨rfl, ⟨row, ?_, hprinted.hash⟩, hb ▸ .cons ⟨hash, hprinted⟩ hms⟩ hbuilt
        exact hb ▸ List.mem_cons_self
      · rw [hgs, List.append_assoc]
        rfl
      · rw [ht, addAll_append]
        rfl

end

/-! ## The rows, block after block -/

/-- The rank of a summary that validation has passed. -/
def GroupRow.rankOf (g : GroupRow) : Int :=
  match g.rank with
  | .integer n => n
  | _ => 0

/-- A manifest row of a summary as a row of the statement. -/
def rowOf (src : ExportSource) (g : GroupRow) (f : FileRow) : ExportRow :=
  ⟨.integer g.rankOf, g, f, src.markOf f⟩

/-- The member rows of a summary. -/
def blockOf (src : ExportSource) (g : GroupRow) : List ExportRow :=
  (src.snapshot.memberRows g.rankOf).map (rowOf src g)

def ExportRow.place (r : ExportRow) : (ℕ ×ₗ ℚ ×ₗ Bytes) ×ₗ (ℕ ×ₗ ℚ ×ₗ Bytes) :=
  toLex (r.rank.key, r.file.path.key)

section
variable {src : ExportSource} {s : Snapshot}

theorem rank_cell (hv : Validated s.tables s.scanId s.mode s.generation s.inconsistentRanks)
    {g : GroupRow} (hg : g ∈ s.tables.fileGroup) : g.rank = .integer g.rankOf := by
  have hdomain := hv.domains g hg
  simp only [GroupRow.cells, List.forall_mem_cons] at hdomain
  obtain ⟨n, hn, -⟩ := badCount_eq_false hdomain.1
  unfold GroupRow.rankOf
  rw [hn]

theorem groupsAt_single (hkeyed : s.tables.Keyed)
    (hv : Validated s.tables s.scanId s.mode s.generation s.inconsistentRanks)
    {g : GroupRow} (hg : g ∈ s.tables.fileGroup) :
    s.tables.groupsAt (.integer g.rankOf) = [g] := by
  have hmem : g ∈ s.tables.groupsAt (.integer g.rankOf) :=
    List.mem_filter.mpr ⟨hg, by rw [rank_cell hv hg]; exact Value.same_integer.mpr rfl⟩
  exact (filter_key_unique hkeyed.ranks hmem).1

/-- The summaries in the order of their ranks, which are all different. -/
theorem ranks_sorted (hkeyed : s.tables.Keyed)
    (hv : Validated s.tables s.scanId s.mode s.generation s.inconsistentRanks) :
    (Sql.orderBy (fun g : GroupRow => g.rank.key) s.tables.fileGroup).Pairwise
      fun g g' => g.rank.key < g'.rank.key :=
  Sql.sorted_strict (Sql.orderBy_sorted _ _) (Sql.keyed_orderBy hkeyed.ranks) fun g hg => by
    rw [rank_cell hv (Sql.mem_orderBy.mp hg)]
    simp

/-- The member rows of a rank in the order of their pathnames, which are all different. -/
theorem memberRows_sorted (hkeyed : s.tables.Keyed) (hmode : s.mode ≠ .unknown)
    (hv : Validated s.tables s.scanId s.mode s.generation s.inconsistentRanks)
    {g : GroupRow} (hg : g ∈ s.tables.fileGroup)
    (hnull : ∀ f ∈ s.memberRows g.rankOf, f.path ≠ .null) :
    (s.memberRows g.rankOf).Pairwise fun f f' => f.path.key < f'.path.key := by
  unfold Snapshot.memberRows at hnull ⊢
  cases hm : s.mode with
  | unknown => exact absurd hm hmode
  | explicit =>
    have hshape : ExplicitShape s.tables s.generation :=
      validateStructure_explicit.1 (hm ▸ hv.shape)
    have hmem : ∀ m ∈ Sql.orderBy (fun m : MemberRow => m.path.key)
        (s.tables.membersAt (.integer g.rankOf)), m ∈ s.tables.member :=
      fun m h => (List.mem_filter.mp (Sql.mem_orderBy.mp h)).1
    have hmembers : (Sql.orderBy (fun m : MemberRow => m.path.key)
        (s.tables.membersAt (.integer g.rankOf))).Pairwise fun m m' => m.path.key < m'.path.key := by
      have hnodup : (s.tables.member.map fun m => m.path.key).Nodup := by
        have := Sql.repeated_eq_zero.1 hshape.paths
        rwa [List.map_map] at this
      have hne := ((List.pairwise_map.1 hnodup).sublist
        (List.filter_sublist (p := fun m => Value.same m.groupRank (.integer g.rankOf))))
      exact ((Sql.orderBy_sorted _ _).and ((Sql.orderBy_perm _ _).symm.pairwise hne
        fun h => h.symm)).imp fun h => lt_of_le_of_ne h.1 h.2
    simp only
    rw [List.pairwise_flatMap]
    constructor
    · intro m h
      obtain ⟨f, hf⟩ := List.exists_mem_of_ne_nil _ (hshape.manifest m (hmem m h))
      have hone : s.tables.filesAt m.path = [f] := (filter_key_unique hkeyed.paths hf).1
      rw [hone]
      exact List.pairwise_singleton _ _
    · refine hmembers.imp_of_mem fun {m m'} h h' hlt f hf f' hf' => ?_
      rw [hshape.path_eq m (hmem m h) f hf, hshape.path_eq m' (hmem m' h') f' hf']
      exact hlt
  | derived =>
    rw [hm] at hnull
    simp only at hnull ⊢
    refine Sql.sorted_strict (Sql.orderBy_sorted _ _) (Sql.keyed_orderBy ?_) hnull
    rw [groupsAt_single hkeyed hv hg, List.flatMap_singleton]
    exact hkeyed.paths.sublist List.filter_sublist

theorem explicit_rank (hv : Validated s.tables s.scanId s.mode s.generation s.inconsistentRanks)
    (hshape : ExplicitShape s.tables s.generation) {g : GroupRow} (hg : g ∈ s.tables.fileGroup)
    {m : MemberRow} (hm : m ∈ s.tables.member) (hsame : Value.same g.rank m.groupRank = true) :
    m.groupRank = .integer g.rankOf := by
  have hcell := hshape.cells m hm
  unfold memberOffence at hcell
  simp only [Bool.or_eq_false_iff] at hcell
  obtain ⟨n, hn, -⟩ := badCount_eq_false hcell.1.2
  rw [rank_cell hv hg, hn, Value.same_integer] at hsame
  rw [hn, hsame]

/-- The rows of the statement and the blocks hold the same rows. -/
theorem exportRows_perm (hkeyed : src.snapshot.tables.Keyed) (hmode : src.snapshot.mode ≠ .unknown)
    (hv : Validated src.snapshot.tables src.snapshot.scanId src.snapshot.mode
      src.snapshot.generation src.snapshot.inconsistentRanks) :
    (exportRows src).Perm
      ((Sql.orderBy (fun g : GroupRow => g.rank.key) src.snapshot.tables.fileGroup).flatMap
        (blockOf src)) := by
  -- in any order of the summaries
  refine List.Perm.trans ?_ ((Sql.orderBy_perm _ _).symm.flatMap_right _)
  have hsingle := fun g (hg : g ∈ src.snapshot.tables.fileGroup) => groupsAt_single hkeyed hv hg
  have hcell := fun g (hg : g ∈ src.snapshot.tables.fileGroup) => rank_cell hv hg
  unfold exportRows blockOf Snapshot.memberRows
  cases hm : src.snapshot.mode with
  | unknown => exact absurd hm hmode
  | explicit =>
    have hshape : ExplicitShape src.snapshot.tables src.snapshot.generation :=
      validateStructure_explicit.1 (hm ▸ hv.shape)
    simp only
    refine ((Sql.orderBy_perm _ _).flatMap_right _).trans ?_
    refine (Sql.join_swap (fun (m : MemberRow) (g : GroupRow) => Value.same g.rank m.groupRank)
      (fun m g => (src.snapshot.tables.filesAt m.path).map fun f =>
        (⟨m.groupRank, g, f, src.markOf f⟩ : ExportRow)) _ _).trans ?_
    refine List.Perm.flatMap_left _ fun g hg => ?_
    have hown : (src.snapshot.tables.member.filter fun m => Value.same g.rank m.groupRank) =
        src.snapshot.tables.membersAt (.integer g.rankOf) := by
      unfold ScanTables.membersAt
      refine List.filter_congr fun m _ => ?_
      rw [Value.same_comm, hcell g hg]
    have hrows : ((src.snapshot.tables.membersAt (.integer g.rankOf)).flatMap fun m =>
          (src.snapshot.tables.filesAt m.path).map fun f =>
            (⟨m.groupRank, g, f, src.markOf f⟩ : ExportRow)) =
        (src.snapshot.tables.membersAt (.integer g.rankOf)).flatMap fun m =>
          (src.snapshot.tables.filesAt m.path).map (rowOf src g) := by
      refine List.flatMap_congr fun m hmem => List.map_congr_left fun f _ => ?_
      obtain ⟨hmm, hsame⟩ := List.mem_filter.mp hmem
      rw [Value.same_comm, ← hcell g hg] at hsame
      unfold rowOf
      rw [explicit_rank hv hshape hg hmm hsame]
    rw [hown, hrows, List.map_flatMap]
    exact (Sql.orderBy_perm _ _).symm.flatMap_right _
  | derived =>
    simp only
    refine (Sql.orderBy_perm _ _).trans (List.Perm.flatMap_left _ fun g hg => ?_)
    rw [hsingle g hg, List.flatMap_singleton]
    have hrows : (src.snapshot.tables.filesOf g.hash).map
          (fun f => (⟨g.rank, g, f, src.markOf f⟩ : ExportRow)) =
        (src.snapshot.tables.filesOf g.hash).map (rowOf src g) := by
      unfold rowOf
      rw [hcell g hg]
    rw [hrows]
    exact (Sql.orderBy_perm _ _).symm.map _

/-- The rows of the statement come in its order. -/
theorem exportRows_sorted (hmode : src.snapshot.mode ≠ .unknown)
    (hv : Validated src.snapshot.tables src.snapshot.scanId src.snapshot.mode
      src.snapshot.generation src.snapshot.inconsistentRanks) :
    (exportRows src).Pairwise fun r r' => r.place ≤ r'.place := by
  unfold exportRows
  cases hm : src.snapshot.mode with
  | unknown => exact absurd hm hmode
  | derived => exact Sql.orderBy_sorted _ _
  | explicit =>
    have hshape : ExplicitShape src.snapshot.tables src.snapshot.generation :=
      validateStructure_explicit.1 (hm ▸ hv.shape)
    -- every row of a member has the member's place
    have hplace : ∀ m ∈ src.snapshot.tables.member, ∀ r ∈ (src.snapshot.tables.groupsAt
          m.groupRank).flatMap fun g => (src.snapshot.tables.filesAt m.path).map fun f =>
            (⟨m.groupRank, g, f, src.markOf f⟩ : ExportRow),
        r.place = toLex (m.groupRank.key, m.path.key) := by
      intro m hmem r hr
      obtain ⟨g, -, hr⟩ := List.mem_flatMap.mp hr
      obtain ⟨f, hf, rfl⟩ := List.mem_map.mp hr
      unfold ExportRow.place
      rw [hshape.path_eq m hmem f hf]
    simp only
    rw [List.pairwise_flatMap]
    constructor
    · intro m hmem
      refine List.pairwise_of_forall_mem_list fun r hr r' hr' => ?_
      rw [hplace m (Sql.mem_orderBy.mp hmem) r hr, hplace m (Sql.mem_orderBy.mp hmem) r' hr']
    · refine (Sql.orderBy_sorted _ _).imp_of_mem fun {m m'} hmem hmem' hle r hr r' hr' => ?_
      rw [hplace m (Sql.mem_orderBy.mp hmem) r hr, hplace m' (Sql.mem_orderBy.mp hmem') r' hr']
      exact hle

/-- **The rows of the statement are the member rows of the summaries, rank after rank.** -/
theorem exportRows_blocks (hkeyed : src.snapshot.tables.Keyed)
    (hmode : src.snapshot.mode ≠ .unknown)
    (hv : Validated src.snapshot.tables src.snapshot.scanId src.snapshot.mode
      src.snapshot.generation src.snapshot.inconsistentRanks)
    (hnull : ∀ r ∈ exportRows src, r.file.path ≠ .null) :
    exportRows src =
      (Sql.orderBy (fun g : GroupRow => g.rank.key) src.snapshot.tables.fileGroup).flatMap
        (blockOf src) := by
  have hperm := exportRows_perm hkeyed hmode hv
  refine Sql.eq_of_perm_of_sorted hperm (exportRows_sorted hmode hv) ?_
  have hrank : ∀ g ∈ Sql.orderBy (fun g : GroupRow => g.rank.key) src.snapshot.tables.fileGroup,
      ∀ r ∈ blockOf src g, ∃ f, r.place = toLex (g.rank.key, f.path.key) ∧ r = rowOf src g f := by
    intro g hg r hr
    obtain ⟨f, -, rfl⟩ := List.mem_map.mp hr
    refine ⟨f, ?_, rfl⟩
    unfold ExportRow.place rowOf
    rw [rank_cell hv (Sql.mem_orderBy.mp hg)]
  rw [List.pairwise_flatMap]
  constructor
  · intro g hg
    have hfiles := memberRows_sorted hkeyed hmode hv (Sql.mem_orderBy.mp hg) fun f hf =>
      hnull (rowOf src g f) (hperm.mem_iff.mpr
        (List.mem_flatMap.mpr ⟨g, hg, List.mem_map_of_mem hf⟩))
    unfold blockOf
    rw [List.pairwise_map]
    refine hfiles.imp fun {f f'} hlt => ?_
    exact Prod.Lex.toLex_lt_toLex.mpr (.inr ⟨rfl, hlt⟩)
  · refine (ranks_sorted hkeyed hv).imp_of_mem fun {g g'} hg hg' hlt r hr r' hr' => ?_
    obtain ⟨f, hr, -⟩ := hrank g hg r hr
    obtain ⟨f', hr', -⟩ := hrank g' hg' r' hr'
    rw [hr, hr']
    exact Prod.Lex.toLex_lt_toLex.mpr (.inl hlt)

/-! ## Members -/

/-- An exported member and the member that `group` returns are one file with one mark. -/
structure SameMember (m : ExportMember) (e : MarkedEntry) : Prop where
  path : m.path = e.path
  size : m.size = e.size
  mtime : m.mtime = e.mtime
  mtimeNsec : m.mtimeNsec = e.mtimeNsec
  device : m.device = e.device
  inode : m.inode = e.inode
  links : m.links = e.nlink
  keeper : e.isKeeper = true ↔ m.mark = some .keeper
  action : ∀ kind, e.action = some kind ↔ m.mark = some (.act kind)

/-- A mark that decodes is what the browser shows of its cells. -/
theorem decodeMark_shown {path : Bytes} {present : Bool} {isKeeper action : Value}
    {mark : Option MarkIntent} (h : decodeMark path present isKeeper action = .ok mark) :
    ∃ keeper text, getOptInteger isKeeper = .ok keeper ∧ getOptText action = .ok text ∧
      (keeper.getD 0 ≠ 0 ↔ mark = some .keeper) ∧
      ∀ kind, text.bind ActionKind.parse = some kind ↔ mark = some (.act kind) := by
  have hutf8 : ∀ {b : Bytes} {kind : ActionKind}, ActionKind.parse b = some kind →
      isUtf8 b = true := by
    intro b kind hb
    unfold ActionKind.parse at hb
    have hfound := List.find?_some hb
    rw [← of_decide_eq_true hfound]
    cases kind <;> decide +kernel
  unfold decodeMark at h
  cases present with
  | false =>
    rw [if_pos rfl] at h
    cases isKeeper <;> cases action <;> simp at h
    subst h
    exact ⟨none, none, rfl, rfl, by simp, by simp⟩
  | true =>
    simp only [Bool.true_eq_false, if_false] at h
    by_cases h0 : isKeeper = .integer 0
    · subst h0
      cases action with
      | null =>
        simp at h
        subst h
        exact ⟨some 0, none, rfl, rfl, by simp, by simp⟩
      | text b =>
        cases hb : ActionKind.parse b with
        | none => simp [hb] at h
        | some kind =>
          simp [hb] at h
          subst h
          refine ⟨some 0, some b, rfl, by simp [getOptText, hutf8 hb], by simp, fun kind' => ?_⟩
          simp [hb]
      | _ => simp at h
    · by_cases h1 : isKeeper = .integer 1
      · subst h1
        cases action with
        | null =>
          simp at h
          subst h
          exact ⟨some 1, none, rfl, rfl, by simp, by simp⟩
        | text b =>
          cases hb : ActionKind.parse b with
          | none => simp [hb] at h
          | some kind => simp [hb] at h
        | _ => simp at h
      · simp [h0, h1] at h

/-- The reader of a printed row, once the times of its inode are integers. -/
theorem entryRow_printed {g : GroupRow} {f : FileRow} {m : ExportMember} {hash : String}
    (h : Printed src (rowOf src g f) m hash) :
    (∀ e, entryRow src f = .ok e → SameMember m e) ∧
      ((∃ sec nsec, (src.columns f.path).ctimeSec = .integer sec ∧
          (src.columns f.path).ctimeNsec = .integer nsec) → ∃ e, entryRow src f = .ok e) := by
  obtain ⟨hpath, -, hmark, -, ⟨size, hsize, -, hmsize⟩, hmtime, ⟨hnsec, -, -⟩,
    ⟨device, hdevice, -, hmdevice⟩, ⟨inode, hinode, -, hminode⟩, ⟨links, hlinks, hmlinks⟩, -⟩ := h
  simp only [rowOf] at hpath hmark hsize hmtime hnsec hdevice hinode hlinks
  obtain ⟨keeper, text, hkeeper, htext, hisKeeper, haction⟩ := decodeMark_shown hmark
  unfold entryRow
  simp only [hpath, hsize, hmtime, hnsec, hdevice, hinode, hlinks, hkeeper, htext, getInteger, bind,
    Except.bind, pure, Except.pure]
  constructor
  · intro e he
    cases hsec : (src.columns f.path).ctimeSec <;> simp only [hsec, reduceCtorEq] at he
    cases hcnsec : (src.columns f.path).ctimeNsec <;>
      simp only [hcnsec, reduceCtorEq, Except.ok.injEq] at he
    subst he
    exact ⟨rfl, hmsize, rfl, rfl, hmdevice, hminode, hmlinks, by simpa using hisKeeper, haction⟩
  · rintro ⟨sec, nsec, hsec, hcnsec⟩
    rw [hsec, hcnsec]
    exact ⟨_, rfl⟩

theorem entryRows_ok {fs : List FileRow} : ∀ {es : List MarkedEntry}, entryRows src fs = .ok es →
    List.Forall₂ (fun f e => entryRow src f = .ok e) fs es := by
  induction fs with
  | nil =>
    intro es h
    cases h
    exact .nil
  | cons f fs ih =>
    intro es h
    unfold entryRows at h
    cases hf : entryRow src f with
    | error e => simp [hf] at h
    | ok e =>
      cases hs : entryRows src fs with
      | error e => simp [hf, hs] at h
      | ok rest =>
        simp only [hf, hs, Except.ok.injEq] at h
        subst h
        exact .cons hf (ih hs)

theorem entryRows_total : ∀ {fs : List FileRow}, (∀ f ∈ fs, ∃ e, entryRow src f = .ok e) →
    ∃ es, entryRows src fs = .ok es
  | [], _ => ⟨[], rfl⟩
  | f :: fs, h => by
    obtain ⟨e, he⟩ := h f List.mem_cons_self
    obtain ⟨es, hes⟩ := entryRows_total fun f hf => h f (List.mem_cons_of_mem _ hf)
    exact ⟨e :: es, by simp [entryRows, he, hes]⟩

/-! ## The result -/

/-- What an export that does not refuse hands over. -/
structure ExportMatches (src : ExportSource) (t : ExportTotals) (gs : List ExportGroup) : Prop where
  consistent : src.snapshot.inconsistentRanks = []
  printed : ∀ row ∈ exportRows src, ∃ m hash, Printed src row m hash
  ascending : (gs.map fun g => g.id.rank).Pairwise (· < ·)
  listed : ∀ ids, src.snapshot.summaryIds = .ok ids →
    gs.map ExportGroup.id = ids.filter fun id => !(src.snapshot.memberRows id.rank).isEmpty
  digest : ∀ g ∈ gs, ∃ b ∈ src.snapshot.tables.fileGroup,
    b.rank = .integer g.id.rank ∧ getString b.hash = .ok g.hash
  members : ∀ g ∈ gs, ∀ ms, src.group g.id = .ok ms → List.Forall₂ SameMember g.members ms
  answered : ∀ ids, src.snapshot.summaryIds = .ok ids → ∀ g ∈ gs,
    (∀ f ∈ src.snapshot.memberRows g.id.rank, ∃ sec nsec,
      (src.columns f.path).ctimeSec = .integer sec ∧
        (src.columns f.path).ctimeNsec = .integer nsec) →
    (src.snapshot.memberRows g.id.rank).length < 2 ^ 64 → ∃ ms, src.group g.id = .ok ms
  totals : t.groups = gs.length ∧ t.rows = (gs.map fun g => g.members.length).sum

/-- Rows that were read are in their domain. -/
theorem exportLoop_printed {σ : Type} {sink : ExportSink σ} {r : ExportTotals × σ} :
    ∀ {rows : List ExportRow} {cur : Option ExportGroup} {totals : ExportTotals} {st : σ},
    exportLoop src sink cur totals st rows = .ok r →
      ∀ row ∈ rows, ∃ m hash, Printed src row m hash := by
  intro rows
  induction rows with
  | nil =>
    intro cur totals st _ row hrow
    exact absurd hrow List.not_mem_nil
  | cons first rows ih =>
    intro cur totals st h row hrow
    obtain ⟨rank, -, cur', totals', mid, -, m, hash, hread, hrest⟩ := exportLoop_cons.mp h
    rcases List.mem_cons.mp hrow with rfl | hrow
    · exact ⟨m, hash, readExportMember_ok hread⟩
    · exact ih hrest row hrow

theorem summaryIds_rows {ids : List GroupId} (h : s.summaryIds = .ok ids) :
    ids = (Sql.orderBy (fun g : GroupRow => g.rank.key) s.tables.fileGroup).map (fun g =>
        (⟨s.scanId, g.rankOf, s.generation⟩ : GroupId)) ∧
      ∀ g ∈ s.tables.fileGroup, ∃ summary, readSummary g = .ok summary := by
  unfold Snapshot.summaryIds at h
  cases hauth : s.requireAuthority with
  | error e => simp [hauth] at h
  | ok _ =>
    cases hread : readSummaries (Sql.orderBy (fun g : GroupRow => g.rank.key) s.tables.fileGroup) with
    | error e => simp [hauth, hread] at h
    | ok summaries =>
      simp only [hauth, hread, Except.ok.injEq] at h
      subst h
      constructor
      · have hranks := readSummaries_ok hread
        clear hread
        generalize Sql.orderBy (fun g : GroupRow => g.rank.key) s.tables.fileGroup = rows at hranks ⊢
        induction hranks with
        | nil => rfl
        | @cons g r rows rs hg _ ih =>
          rw [List.map_cons, List.map_cons, ih]
          unfold GroupRow.rankOf
          rw [hg]
      · intro g hg
        have hmem := (Sql.orderBy_perm (fun g : GroupRow => g.rank.key) _).mem_iff.mpr hg
        revert hread
        generalize Sql.orderBy (fun g : GroupRow => g.rank.key) s.tables.fileGroup = rows at hmem
        clear hauth
        induction rows generalizing summaries with
        | nil => exact absurd hmem List.not_mem_nil
        | cons first rows ih =>
          intro hread
          unfold readSummaries at hread
          cases hfirst : readSummary first with
          | error e => simp [hfirst] at hread
          | ok summary =>
            cases hrest : readSummaries rows with
            | error e => simp [hfirst, hrest] at hread
            | ok rest =>
              rcases List.mem_cons.mp hmem with rfl | hmem
              · exact ⟨summary, hfirst⟩
              · exact ih rest hmem hrest

theorem readSummary_count {g : GroupRow} {summary : Int × Nat} (h : readSummary g = .ok summary) :
    ∃ n, g.fileCount = .integer n ∧ summary.2 = castU64 n := by
  unfold readSummary at h
  cases hrank : getInteger g.rank <;> cases hhash : getString g.hash <;>
    cases hcount : getInteger g.fileCount <;> cases hsize : getInteger g.size <;>
    simp only [hrank, hhash, hcount, hsize, reduceCtorEq] at h
  rename_i rank hash count size
  cases hobjects : getInteger g.objectCount <;> cases hreclaim : getInteger g.reclaim <;>
    cases hstate : getInteger g.reclaimState <;>
    simp only [hobjects, hreclaim, hstate, reduceCtorEq] at h
  split at h
  · cases h
  · cases h
    exact ⟨count, getInteger_ok.mp hcount, rfl⟩

/-- A summary's rows are as many as it declares. -/
theorem length_memberRows (hkeyed : s.tables.Keyed) (hmode : s.mode ≠ .unknown)
    (hv : Validated s.tables s.scanId s.mode s.generation s.inconsistentRanks)
    {g : GroupRow} (hg : g ∈ s.tables.fileGroup) :
    (s.memberRows g.rankOf).length = memberCount s.tables s.mode g := by
  unfold Snapshot.memberRows memberCount
  cases hm : s.mode with
  | unknown => exact absurd hm hmode
  | explicit =>
    have hshape : ExplicitShape s.tables s.generation :=
      validateStructure_explicit.1 (hm ▸ hv.shape)
    have hone : ∀ m ∈ Sql.orderBy (fun m : MemberRow => m.path.key)
        (s.tables.membersAt (.integer g.rankOf)), (s.tables.filesAt m.path).length = 1 := by
      intro m h
      obtain ⟨f, hf⟩ := List.exists_mem_of_ne_nil _
        (hshape.manifest m (List.mem_filter.mp (Sql.mem_orderBy.mp h)).1)
      have hsingle : s.tables.filesAt m.path = [f] := (filter_key_unique hkeyed.paths hf).1
      rw [hsingle, List.length_singleton]
    simp only
    rw [List.length_flatMap, List.map_congr_left hone, List.map_const', List.sum_replicate,
      (Sql.orderBy_perm _ _).length_eq, rank_cell hv hg]
    simp
  | derived =>
    simp only
    rw [(Sql.orderBy_perm _ _).length_eq, groupsAt_single hkeyed hv hg, List.flatMap_singleton]

theorem integer_key_lt {a b : Int} (h : (Value.integer a).key < (Value.integer b).key) : a < b := by
  rw [Value.key, Value.key, Prod.Lex.toLex_lt_toLex] at h
  rcases h with h | ⟨-, h⟩
  · exact absurd h (lt_irrefl _)
  · rw [Prod.Lex.toLex_lt_toLex] at h
    rcases h with h | ⟨-, h⟩
    · have h : (a : ℚ) < b := h
      exact_mod_cast h
    · exact absurd h (lt_irrefl _)

theorem sameMembers {g : GroupRow} : ∀ {fs : List FileRow} {ms : List ExportMember}
    {es : List MarkedEntry},
    List.Forall₂ (fun row m => ∃ hash, Printed src row m hash) (fs.map (rowOf src g)) ms →
    List.Forall₂ (fun f e => entryRow src f = .ok e) fs es → List.Forall₂ SameMember ms es
  | [], _, _, .nil, .nil => .nil
  | _ :: _, _, _, .cons hm hms, .cons he hes => by
    obtain ⟨hash, hprinted⟩ := hm
    exact .cons ((entryRow_printed hprinted).1 _ he) (sameMembers hms hes)

theorem ExportSource.group_ok {id : GroupId} {ms : List MarkedEntry} (h : src.group id = .ok ms) :
    entryRows src (src.snapshot.memberRows id.rank) = .ok ms := by
  unfold ExportSource.group at h
  cases hcurrent : src.snapshot.requireCurrent id with
  | error e => simp [hcurrent] at h
  | ok _ =>
    cases hg : (src.snapshot.tables.groupsAt (.integer id.rank)).head? with
    | none => simp [hcurrent, hg] at h
    | some g =>
      cases hs : readSummary g with
      | error e => simp [hcurrent, hg, hs] at h
      | ok summary =>
        cases hr : entryRows src (src.snapshot.memberRows id.rank) with
        | error e => simp [hcurrent, hg, hs, hr] at h
        | ok members =>
          by_cases hlen : members.length ≠ summary.2
          · simp [hcurrent, hg, hs, hr, hlen] at h
          · simp only [hcurrent, hg, hs, hr, if_neg hlen, Except.ok.injEq] at h
            rw [h]

/-- `group` answers for a summary that is consistent and whose rows can be read. -/
theorem ExportSource.group_answers (hkeyed : src.snapshot.tables.Keyed)
    (hmode : src.snapshot.mode ≠ .unknown)
    (hv : Validated src.snapshot.tables src.snapshot.scanId src.snapshot.mode
      src.snapshot.generation src.snapshot.inconsistentRanks)
    (hconsistent : src.snapshot.inconsistentRanks = []) {g : GroupRow}
    (hg : g ∈ src.snapshot.tables.fileGroup) {summary : Int × Nat}
    (hsummary : readSummary g = .ok summary) {ms : List MarkedEntry}
    (hrows : entryRows src (src.snapshot.memberRows g.rankOf) = .ok ms)
    (hshort : (src.snapshot.memberRows g.rankOf).length < 2 ^ 64) :
    src.group ⟨src.snapshot.scanId, g.rankOf, src.snapshot.generation⟩ = .ok ms := by
  have hcell := rank_cell hv hg
  have hrank : 0 ≤ g.rankOf := by
    have hdomain := hv.domains g hg
    simp only [GroupRow.cells, List.forall_mem_cons] at hdomain
    obtain ⟨n, hn, hpos⟩ := badCount_eq_false hdomain.1
    rw [hcell] at hn
    cases hn
    exact hpos
  have hcurrent : src.snapshot.requireCurrent
      ⟨src.snapshot.scanId, g.rankOf, src.snapshot.generation⟩ = .ok () := by
    simp [Snapshot.requireCurrent, Snapshot.requireAuthority, hmode, not_lt.mpr hrank,
      Snapshot.requireConsistent, hconsistent]
  -- the declared count is the count of the rows
  obtain ⟨n, hn, hdeclared⟩ := readSummary_count hsummary
  have hagree := hv.counts g hg _ hcell (by simp [hconsistent])
  rw [disagrees, hn, Value.differs_eq_not_same (by simp) (by simp), Bool.not_eq_false',
    Value.same_integer, ← length_memberRows hkeyed hmode hv hg] at hagree
  have hlength : ms.length = (src.snapshot.memberRows g.rankOf).length :=
    (entryRows_ok hrows).length_eq.symm
  have hcount : ¬ms.length ≠ summary.2 := by
    rw [hdeclared, ← hagree, hlength]
    unfold castU64
    omega
  unfold ExportSource.group
  simp only [hcurrent, groupsAt_single hkeyed hv hg, List.head?_cons, hsummary, hrows,
    if_neg hcount]

theorem built_ids {bs : List GroupRow} {gs : List ExportGroup}
    (h : List.Forall₂ (fun b g => BlockGroup src b.rankOf (blockOf src b) g) bs gs) :
    gs.map ExportGroup.id =
      bs.map fun g => ⟨src.snapshot.scanId, g.rankOf, src.snapshot.generation⟩ := by
  induction h with
  | nil => rfl
  | cons hg _ ih => rw [List.map_cons, List.map_cons, hg.id, ih]

/-- **An export hands over the groups that the trusted readers answer for**, or it refuses. -/
theorem export_matches {db : Database} {scanId : Int} {t : ExportTotals} {σ : Type}
    {sink : ExportSink σ} {st st' : σ} (hsnap : membershipSnapshot db scanId = .ok src.snapshot)
    (hkeyed : src.snapshot.tables.Keyed) (h : forEachExportGroup src sink st = .ok (t, st')) :
    ∃ gs, sink.run gs st = .ok st' ∧ ExportMatches src t gs := by
  obtain ⟨gs, hgs, hrun⟩ := forEachExportGroup_iff.mp h
  refine ⟨gs, hrun, ?_⟩
  obtain ⟨-, -, hvalid⟩ := membershipSnapshot_ok hsnap
  unfold forEachExportGroup at hgs
  cases hauth : src.snapshot.requireAuthority with
  | error e => simp [hauth] at hgs
  | ok _ =>
    have hmode : src.snapshot.mode ≠ .unknown := by
      intro hm
      simp [Snapshot.requireAuthority, hm] at hauth
    have hv := hvalid hmode
    cases hbad : src.snapshot.inconsistentRanks.head? with
    | some rank => simp [hauth, hbad] at hgs
    | none =>
      simp only [hauth, hbad] at hgs
      have hconsistent := List.head?_eq_none_iff.mp hbad
      have hprinted := exportLoop_printed hgs
      have hblocks := exportRows_blocks hkeyed hmode hv fun row hrow => by
        obtain ⟨m, hash, hp⟩ := hprinted row hrow
        rw [(getText_ok.1 hp.path).1]
        simp
      rw [hblocks] at hgs
      have hmem : ∀ g ∈ Sql.orderBy (fun g : GroupRow => g.rank.key) src.snapshot.tables.fileGroup,
          g ∈ src.snapshot.tables.fileGroup := fun g hg => Sql.mem_orderBy.mp hg
      have hranks : ((Sql.orderBy (fun g : GroupRow => g.rank.key)
          src.snapshot.tables.fileGroup).map GroupRow.rankOf).Pairwise (· < ·) := by
        rw [List.pairwise_map]
        refine (ranks_sorted hkeyed hv).imp_of_mem fun {g g'} hg hg' hlt => ?_
        rw [rank_cell hv (hmem g hg), rank_cell hv (hmem g' hg')] at hlt
        exact integer_key_lt hlt
      obtain ⟨built, hbuilt, hgs, ht⟩ := loop_blocks GroupRow.rankOf (blockOf src)
        (hranks.imp ne_of_lt) (fun g hg row hrow => by
          obtain ⟨f, -, rfl⟩ := List.mem_map.mp hrow
          rfl) (fun g hg => by cases hg) hgs
      simp only [Option.toList_none, List.nil_append] at hgs ht
      subst hgs
      have hids : gs.map ExportGroup.id = ((Sql.orderBy (fun g : GroupRow => g.rank.key)
          src.snapshot.tables.fileGroup).filter fun b => !(blockOf src b).isEmpty).map fun g =>
            ⟨src.snapshot.scanId, g.rankOf, src.snapshot.generation⟩ := built_ids hbuilt
      have hgroup : ∀ g ∈ gs, ∃ b ∈ src.snapshot.tables.fileGroup,
          BlockGroup src b.rankOf (blockOf src b) g := by
        intro g hg
        obtain ⟨b, hb, hbg⟩ := exists_of_forall₂_right hbuilt g hg
        exact ⟨b, hmem b (List.mem_filter.mp hb).1, hbg⟩
      exact {
        consistent := hconsistent
        printed := hprinted
        ascending := by
          have hsub : (gs.map fun g => g.id.rank) = ((Sql.orderBy (fun g : GroupRow => g.rank.key)
              src.snapshot.tables.fileGroup).filter fun b => !(blockOf src b).isEmpty).map
                GroupRow.rankOf := by
            have := congrArg (List.map GroupId.rank) hids
            rwa [List.map_map, List.map_map] at this
          rw [hsub]
          exact hranks.sublist (List.filter_sublist.map _)
        listed := by
          intro ids hsummary
          rw [(summaryIds_rows hsummary).1, List.filter_map, hids]
          congr 1
          refine List.filter_congr fun b _ => ?_
          simp [blockOf]
        digest := by
          intro g hg
          obtain ⟨b, hb, hbg⟩ := hgroup g hg
          obtain ⟨row, hrow, hhash⟩ := hbg.hash
          obtain ⟨f, -, rfl⟩ := List.mem_map.mp hrow
          exact ⟨b, hb, by rw [hbg.id]; exact rank_cell hv hb, hhash⟩
        members := by
          intro g hg ms hms
          obtain ⟨b, -, hbg⟩ := hgroup g hg
          have hrows := ExportSource.group_ok hms
          rw [hbg.id] at hrows
          exact sameMembers hbg.members (entryRows_ok hrows)
        answered := by
          intro ids hsummary g hg htimes hshort
          obtain ⟨b, hb, hbg⟩ := hgroup g hg
          rw [hbg.id] at htimes hshort ⊢
          obtain ⟨summary, hread⟩ := (summaryIds_rows hsummary).2 b hb
          have hreads : ∀ f ∈ src.snapshot.memberRows b.rankOf, ∃ e, entryRow src f = .ok e := by
            intro f hf
            obtain ⟨m, -, hash, hp⟩ := exists_of_forall₂_left hbg.members (rowOf src b f)
              (List.mem_map_of_mem hf)
            exact (entryRow_printed hp).2 (htimes f hf)
          obtain ⟨ms, hms⟩ := entryRows_total hreads
          exact ⟨ms, ExportSource.group_answers hkeyed hmode hv hconsistent hb hread hms hshort⟩
        totals := by
          rw [ht]
          simp [ExportTotals.addAll] }

end

/-! ## Two publications -/

/-- The integer columns of manifest rows, as a reader of the row itself has them. -/
def columnsOf (t : ScanTables) (path : Value) : IntegerColumns :=
  match t.filesAt path with
  | f :: _ => ⟨.integer f.mtime, .integer f.mtimeNsec, .integer f.ctimeSec, .integer f.ctimeNsec,
    .integer f.device, .integer f.inode⟩
  | [] => ⟨.null, .null, .null, .null, .null, .null⟩

/-- The derived publication of two groups: `/a` and `/b` share a digest, `/c` and `/d` another. -/
def twoGroups : ScanTables :=
  let file (name : Fin 256) (size inode : Int) (digest : Bytes) : FileRow :=
    ⟨.text [47, name], .integer size, 10 * inode, 5, 10 * inode, 6, 1, 7, inode, .integer 1, .blob digest⟩
  let group (rank size : Int) (digest : Bytes) : GroupRow :=
    ⟨rank + 1, .integer rank, .text (Sql.hexText digest), .integer 2, .integer size, .integer size,
      .integer 2, .integer 1⟩
  { file := [file 97 3 1 (List.replicate 32 170), file 98 3 2 (List.replicate 32 170),
      file 99 2 3 (List.replicate 32 187), file 100 2 4 (List.replicate 32 187)]
    fileGroup := [group 0 3 (List.replicate 32 170), group 1 2 (List.replicate 32 187)]
    member := []
    membership := some (.integer 1, .integer 5)
    stats := none }

/-- `/a` is marked as the keeper of its group and `/b` for deletion. -/
def twoGroupsSource : ExportSource where
  snapshot := ⟨twoGroups, 1, .derived, 5, []⟩
  marks := [⟨1, .text [47, 97], .integer 1, .null⟩,
    ⟨1, .text [47, 98], .integer 0, .text (asciiBytes ActionKind.delete.asStr)⟩]
  columns := columnsOf twoGroups

/-- The export hands over both groups, of two members each. -/
theorem export_matches_twoGroups : ∃ gs, ExportMatches twoGroupsSource ⟨2, 4⟩ gs := by
  have hrun : forEachExportGroup twoGroupsSource (fun _ (n : Nat) => .ok (n + 1)) 0 =
      .ok (⟨2, 4⟩, 2) := rfl
  obtain ⟨gs, -, hmatches⟩ := @export_matches twoGroupsSource
    ⟨fun _ => true, fun _ => twoGroups⟩ 1 _ _ _ _ _ rfl ⟨by decide, by decide⟩ hrun
  exact ⟨gs, hmatches⟩

/-- A derived publication with a summary that declares no member and has none. -/
def vacantSource : ExportSource where
  snapshot :=
    ⟨{ file := []
       fileGroup := [⟨1, .integer 0, .text (Sql.hexText (List.replicate 32 170)), .integer 0,
         .integer 2, .integer 0, .integer 0, .integer 1⟩]
       member := []
       membership := some (.integer 1, .integer 5)
       stats := none }, 1, .derived, 5, []⟩
  marks := []
  columns := fun _ => ⟨.null, .null, .null, .null, .null, .null⟩

/-- A summary without a member is listed and not handed over. -/
theorem not_export_equals :
    ¬∀ (db : Database) (scanId : Int) (src : ExportSource) (t : ExportTotals)
      (gs : List ExportGroup), membershipSnapshot db scanId = .ok src.snapshot →
      src.snapshot.tables.Keyed → forEachExportGroup src collected [] = .ok (t, gs) →
      ∃ ids, src.snapshot.summaryIds = .ok ids ∧ gs.map ExportGroup.id = ids := by
  intro h
  obtain ⟨ids, hids, hgs⟩ := h ⟨fun _ => true, fun _ => vacantSource.snapshot.tables⟩ 1
    vacantSource ⟨0, 0⟩ [] rfl ⟨by decide, by decide⟩ rfl
  have hlisted : vacantSource.snapshot.summaryIds = .ok [⟨1, 0, 5⟩] := rfl
  rw [hlisted, ← hgs] at hids
  cases hids

end DedupCommando
