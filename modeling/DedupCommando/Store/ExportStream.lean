import DedupCommando.Store.Sweep

/-!
# The rows of an export

`for_each_export_group`: one joined row stream over the whole publication, cut into groups where the
rank changes.

* `ExportMember`, `ExportGroup`, `ExportTotals` — what a sink is handed, and what was covered.
* `ExportSource` — a snapshot, the marks, and the integer columns of the manifest as they are stored.
* `exportRows` — the joined rows in the order of the statement.
* `readExportMember` — one row, read strictly.
* `forEachExportGroup` — the loop over the rows.
-/

set_option autoImplicit false

namespace DedupCommando

open Sql (Value)

/-! ## Groups of an export -/

/-- `ExportMember` -/
structure ExportMember where
  path : Bytes
  size : Nat
  mtime : Int
  mtimeNsec : Int
  device : Nat
  inode : Nat
  links : Nat
  mark : Option MarkIntent
  deriving DecidableEq

/-- `ExportGroup` -/
structure ExportGroup where
  id : GroupId
  hash : String
  members : List ExportMember
  deriving DecidableEq

/-- `ExportTotals` -/
structure ExportTotals where
  groups : Nat
  rows : Nat
  deriving DecidableEq

/-! ## Cells -/

/-- The integer columns of a manifest row, which hold whatever was stored in them. -/
structure IntegerColumns where
  mtime : Value
  mtimeNsec : Value
  ctimeSec : Value
  ctimeNsec : Value
  device : Value
  inode : Value

/-- What an export reads: a snapshot, the marks, and the columns of each pathname's row. -/
structure ExportSource where
  snapshot : Snapshot
  marks : List MarkRow
  columns : Value → IntegerColumns

/-- `nonnegative_cell` -/
def nonnegativeCell (v : Value) (field : String) (path : Bytes) : Except AppError Nat :=
  let refusal : Except AppError Nat :=
    .error ⟨s!"{field} holds {authorityCell v} for {terminal (Bytes.display path)} — not a value a " ++
      "filesystem can report. The export refuses rather than printing it as fact. Nothing was written."⟩
  match v with
  | .integer raw => if 0 ≤ raw then .ok (castU64 raw) else refusal
  | _ => refusal

/-- `nanoseconds_cell` -/
def nanosecondsCell (v : Value) (path : Bytes) : Except AppError Int :=
  let refusal : Except AppError Int :=
    .error ⟨s!"file.mtime_nsec holds {authorityCell v} for {terminal (Bytes.display path)} — outside " ++
      "the 0..999999999 a filesystem can report, and the exported keeper is chosen by it. Nothing " ++
      "was written."⟩
  match v with
  | .integer raw => if 0 ≤ raw ∧ raw < 1000000000 then .ok raw else refusal
  | _ => refusal

/-- `describe_value` -/
def describeValue : Value → String
  | .null => "null"
  | .integer n => s!"integer {n}"
  | .real q => s!"real {q}"
  | .text b => "text " ++ (Bytes.display b).quote
  | .blob b => s!"blob of {b.length} bytes"

/-- How a mark that does not decode reads. -/
def MarkDecodeError.text : MarkDecodeError → String
  | .corrupt path field cell =>
    s!"dedcom.db holds an unreadable mark for {Bytes.display path} ({field}: {describeValue cell})"
  | .contradictory path => s!"{Bytes.display path} is marked both as the keeper and for an action"

/-! ## The joined rows -/

/-- One row of `export_rows_sql`. -/
structure ExportRow where
  rank : Value
  group : GroupRow
  file : FileRow
  mark : Option MarkRow

/-- The mark that the LEFT JOIN finds for a manifest row. -/
def ExportSource.markOf (src : ExportSource) (f : FileRow) : Option MarkRow :=
  src.marks.find? fun m => decide (m.scanId = src.snapshot.scanId) && Value.same m.path f.path

/-- `export_rows_sql` -/
def exportRows (src : ExportSource) : List ExportRow :=
  let t := src.snapshot.tables
  match src.snapshot.mode with
  | .explicit =>
    (Sql.orderBy (fun m : MemberRow => toLex (m.groupRank.key, m.path.key)) t.member).flatMap fun m =>
      (t.groupsAt m.groupRank).flatMap fun g =>
        (t.filesAt m.path).map fun f => ⟨m.groupRank, g, f, src.markOf f⟩
  | _ =>
    Sql.orderBy (fun r : ExportRow => toLex (r.rank.key, r.file.path.key))
      (t.fileGroup.flatMap fun g => (t.filesOf g.hash).map fun f => ⟨g.rank, g, f, src.markOf f⟩)

/-- One row, read strictly, with the digest of its group. -/
def readExportMember (src : ExportSource) (rank : Int) (row : ExportRow) :
    Except AppError (ExportMember × String) :=
  match getText row.file.path with
  | .error e => .error ⟨e⟩
  | .ok path =>
    if path = [] then
      .error ⟨s!"scan {src.snapshot.scanId} holds a manifest row with an empty pathname in group rank " ++
        s!"{rank}; the export refuses rather than naming nothing. Nothing was written."⟩
    else
      match decodeMark path row.mark.isSome (cellOf MarkRow.isKeeper row.mark)
          (cellOf MarkRow.action row.mark) with
      | .error e => .error ⟨e.text ++ "; the export refuses rather than guessing what the operator " ++
          "meant. Nothing was written."⟩
      | .ok mark =>
        match nonnegativeCell row.group.size "file_group.size" path with
        | .error e => .error e
        | .ok summarySize =>
          match nonnegativeCell row.file.size "file.size" path with
          | .error e => .error e
          | .ok memberSize =>
            if summarySize ≠ memberSize then
              .error ⟨s!"{terminal (Bytes.display path)} is {memberSize} bytes while its group " ++
                s!"declares {summarySize}; the export refuses a physical report its own authority " ++
                "contradicts. Nothing was written."⟩
            else
              let cells := src.columns row.file.path
              match getInteger cells.mtime with
              | .error e => .error ⟨e⟩
              | .ok mtime =>
                match nanosecondsCell cells.mtimeNsec path with
                | .error e => .error e
                | .ok mtimeNsec =>
                  match nonnegativeCell cells.device "file.device" path with
                  | .error e => .error e
                  | .ok device =>
                    match nonnegativeCell cells.inode "file.inode" path with
                    | .error e => .error e
                    | .ok inode =>
                      match linkCountFromSql row.file.nlink with
                      | .error e => .error e
                      | .ok links =>
                        match getString row.group.hash with
                        | .error e => .error ⟨e⟩
                        | .ok hash =>
                          .ok (⟨path, summarySize, mtime, mtimeNsec, device, inode, links.toU64, mark⟩,
                            hash)

/-! ## The loop -/

/-- A sink keeps a state of its own and may refuse a group. -/
abbrev ExportSink (σ : Type) := ExportGroup → σ → Except AppError σ

/-- A group with the totals it is added to. -/
def ExportTotals.add (totals : ExportTotals) (group : ExportGroup) : ExportTotals :=
  ⟨totals.groups + 1, totals.rows + group.members.length⟩

/-- What is left of the group in hand in front of a row of this rank: a group of another rank is
handed over before another cell of the row is read. -/
def closeGroup {σ : Type} (sink : ExportSink σ) (rank : Int) :
    Option ExportGroup → ExportTotals → σ → Except AppError (Option ExportGroup × ExportTotals × σ)
  | none, totals, st => .ok (none, totals, st)
  | some group, totals, st =>
    if group.id.rank ≠ rank then
      match sink group st with
      | .error e => .error e
      | .ok st => .ok (none, totals.add group, st)
    else .ok (some group, totals, st)

/-- The group in hand, or a new one, with one more member. -/
def pushMember (src : ExportSource) (rank : Int) (current : Option ExportGroup)
    (member : ExportMember) (hash : String) : ExportGroup :=
  let group := current.getD ⟨⟨src.snapshot.scanId, rank, src.snapshot.generation⟩, hash, []⟩
  { group with members := group.members ++ [member] }

/-- The loop from the group it is in. -/
def exportLoop {σ : Type} (src : ExportSource) (sink : ExportSink σ) :
    Option ExportGroup → ExportTotals → σ → List ExportRow → Except AppError (ExportTotals × σ)
  | none, totals, st, [] => .ok (totals, st)
  | some group, totals, st, [] =>
    match sink group st with
    | .error e => .error e
    | .ok st => .ok (totals.add group, st)
  | current, totals, st, row :: rows =>
    match getInteger row.rank with
    | .error e => .error ⟨e⟩
    | .ok rank =>
      match closeGroup sink rank current totals st with
      | .error e => .error e
      | .ok (current, totals, st) =>
        match readExportMember src rank row with
        | .error e => .error e
        | .ok (member, hash) =>
          exportLoop src sink (some (pushMember src rank current member hash)) totals st rows

/-- `for_each_export_group` -/
def forEachExportGroup {σ : Type} (src : ExportSource) (sink : ExportSink σ) (st : σ) :
    Except AppError (ExportTotals × σ) :=
  match src.snapshot.requireAuthority with
  | .error _ => .error ⟨"the scan has no membership authority"⟩
  | .ok () =>
    match src.snapshot.inconsistentRanks.head? with
    | some rank =>
      .error ⟨s!"group rank {rank} of scan {src.snapshot.scanId} declares a member count its " ++
        "membership does not hold; the export refuses rather than writing a file that omits it. " ++
        "Nothing was written."⟩
    | none => exportLoop src sink none ⟨0, 0⟩ st (exportRows src)

/-! ## What a sink is handed -/

section
variable {σ : Type} {src : ExportSource} {sink : ExportSink σ}

/-- A sink over groups, one after another, up to its first refusal. -/
def ExportSink.run (sink : ExportSink σ) : List ExportGroup → σ → Except AppError σ
  | [], st => .ok st
  | g :: gs, st =>
    match sink g st with
    | .error e => .error e
    | .ok st => sink.run gs st

/-- The sink that only collects. -/
def collected : ExportSink (List ExportGroup) := fun g gs => .ok (gs ++ [g])

theorem run_append : ∀ (gs hs : List ExportGroup) {st st' : σ},
    sink.run (gs ++ hs) st = .ok st' ↔ ∃ mid, sink.run gs st = .ok mid ∧ sink.run hs mid = .ok st'
  | [], hs, st, st' => by simp [ExportSink.run]
  | g :: gs, hs, st, st' => by
    rw [List.cons_append, ExportSink.run, ExportSink.run]
    cases sink g st with
    | error e => simp
    | ok mid => exact run_append gs hs

theorem run_single {g : ExportGroup} {st : σ} : sink.run [g] st = sink g st := by
  unfold ExportSink.run
  cases sink g st <;> rfl

/-- One row of the loop. -/
theorem exportLoop_cons {cur : Option ExportGroup} {totals : ExportTotals} {st : σ} {row : ExportRow}
    {rows : List ExportRow} {r : ExportTotals × σ} :
    exportLoop src sink cur totals st (row :: rows) = .ok r ↔
      ∃ rank, getInteger row.rank = .ok rank ∧
        ∃ cur' totals' mid, closeGroup sink rank cur totals st = .ok (cur', totals', mid) ∧
          ∃ member hash, readExportMember src rank row = .ok (member, hash) ∧
            exportLoop src sink (some (pushMember src rank cur' member hash)) totals' mid rows =
              .ok r := by
  rw [exportLoop]
  cases getInteger row.rank with
  | error e => simp
  | ok rank =>
    cases hclose : closeGroup sink rank cur totals st with
    | error e => simp [hclose]
    | ok c =>
      obtain ⟨cur', totals', mid⟩ := c
      cases hread : readExportMember src rank row with
      | error e => simp [hclose, hread]
      | ok m =>
        obtain ⟨member, hash⟩ := m
        simp [hclose, hread]

theorem closeGroup_iff {rank : Int} {cur cur' : Option ExportGroup} {totals totals' : ExportTotals}
    {st st' : σ} (done : List ExportGroup) :
    closeGroup sink rank cur totals st = .ok (cur', totals', st') ↔
      ∃ gs, closeGroup collected rank cur totals done = .ok (cur', totals', done ++ gs) ∧
        sink.run gs st = .ok st' := by
  cases cur with
  | none =>
    simp only [closeGroup, Except.ok.injEq, Prod.mk.injEq, List.self_eq_append_right]
    constructor
    · rintro ⟨rfl, rfl, rfl⟩
      exact ⟨[], ⟨rfl, rfl, rfl⟩, rfl⟩
    · rintro ⟨gs, ⟨rfl, rfl, rfl⟩, hrun⟩
      exact ⟨rfl, rfl, Except.ok.inj hrun⟩
  | some group =>
    by_cases hne : group.id.rank ≠ rank
    · simp only [closeGroup, if_pos hne, collected]
      constructor
      · intro h
        cases hs : sink group st with
        | error e => simp [hs] at h
        | ok mid =>
          simp only [hs, Except.ok.injEq, Prod.mk.injEq] at h
          obtain ⟨rfl, rfl, rfl⟩ := h
          exact ⟨[group], rfl, run_single.trans hs⟩
      · rintro ⟨gs, h, hrun⟩
        simp only [Except.ok.injEq, Prod.mk.injEq, List.append_cancel_left_eq] at h
        obtain ⟨rfl, rfl, rfl⟩ := h
        rw [run_single] at hrun
        rw [hrun]
    · simp only [closeGroup, if_neg hne, Except.ok.injEq, Prod.mk.injEq, List.self_eq_append_right]
      constructor
      · rintro ⟨rfl, rfl, rfl⟩
        exact ⟨[], ⟨rfl, rfl, rfl⟩, rfl⟩
      · rintro ⟨gs, ⟨rfl, rfl, rfl⟩, hrun⟩
        exact ⟨rfl, rfl, Except.ok.inj hrun⟩

/-- What a sink is handed does not depend on the sink. -/
theorem exportLoop_iff {t : ExportTotals} : ∀ (rows : List ExportRow) {σ : Type}
    {sink : ExportSink σ} {cur : Option ExportGroup} {totals : ExportTotals} {st st' : σ}
    (done : List ExportGroup),
    exportLoop src sink cur totals st rows = .ok (t, st') ↔
      ∃ gs, exportLoop src collected cur totals done rows = .ok (t, done ++ gs) ∧
        sink.run gs st = .ok st' := by
  intro rows
  induction rows with
  | nil =>
    intro σ sink cur totals st st' done
    cases cur with
    | none =>
      simp only [exportLoop, Except.ok.injEq, Prod.mk.injEq, List.self_eq_append_right]
      constructor
      · rintro ⟨rfl, rfl⟩
        exact ⟨[], ⟨rfl, rfl⟩, rfl⟩
      · rintro ⟨gs, ⟨rfl, rfl⟩, hrun⟩
        exact ⟨rfl, Except.ok.inj hrun⟩
    | some group =>
      constructor
      · intro h
        rw [exportLoop] at h
        cases hs : sink group st with
        | error e => simp [hs] at h
        | ok mid =>
          simp only [hs, Except.ok.injEq, Prod.mk.injEq] at h
          obtain ⟨rfl, rfl⟩ := h
          exact ⟨[group], rfl, run_single.trans hs⟩
      · rintro ⟨gs, h, hrun⟩
        simp only [exportLoop, collected, Except.ok.injEq, Prod.mk.injEq,
          List.append_cancel_left_eq] at h
        obtain ⟨rfl, rfl⟩ := h
        rw [run_single] at hrun
        rw [exportLoop, hrun]
  | cons row rows ih =>
    intro σ sink cur totals st st' done
    rw [exportLoop_cons]
    constructor
    · rintro ⟨rank, hrank, cur', totals', mid, hclose, member, hash, hread, hrest⟩
      obtain ⟨gs, hgs, hrun⟩ := (closeGroup_iff done).mp hclose
      obtain ⟨hs, hhs, hrun'⟩ := (ih (done ++ gs)).mp hrest
      refine ⟨gs ++ hs, ?_, (run_append gs hs).mpr ⟨mid, hrun, hrun'⟩⟩
      rw [← List.append_assoc]
      exact exportLoop_cons.mpr ⟨rank, hrank, cur', totals', _, hgs, member, hash, hread, hhs⟩
    · rintro ⟨all, h, hrun⟩
      obtain ⟨rank, hrank, cur', totals', mid, hclose, member, hash, hread, hrest⟩ :=
        exportLoop_cons.mp h
      -- what the collecting sink holds afterwards starts with what it held
      obtain ⟨gs, hgs, hmid⟩ := (closeGroup_iff done).mp hclose
      obtain ⟨hs, hhs, hall⟩ := (ih mid).mp hrest
      have hcollect : ∀ {l d d' : List ExportGroup},
          ExportSink.run collected l d = .ok d' → d' = d ++ l := by
        intro l
        induction l with
        | nil =>
          intro d d' hd
          rw [List.append_nil]
          exact (Except.ok.inj hd).symm
        | cons g l ihl =>
          intro d d' hd
          rw [ihl hd, List.append_assoc, List.singleton_append]
      have hmid' := hcollect hmid
      have hall' := hcollect hall
      subst hmid'
      rw [List.append_assoc] at hall'
      have hsplit : all = gs ++ hs := List.append_cancel_left hall'
      subst hsplit
      obtain ⟨mid', hrun1, hrun2⟩ := (run_append gs hs).mp hrun
      exact ⟨rank, hrank, cur', totals', mid', (closeGroup_iff done).mpr ⟨gs, hclose, hrun1⟩,
        member, hash, hread, (ih (done ++ gs)).mpr ⟨hs, hhs, hrun2⟩⟩

/-- **A run over the stream is a run over the groups that it hands over.** -/
theorem forEachExportGroup_iff {t : ExportTotals} {st st' : σ} :
    forEachExportGroup src sink st = .ok (t, st') ↔
      ∃ gs, forEachExportGroup src collected [] = .ok (t, gs) ∧ sink.run gs st = .ok st' := by
  unfold forEachExportGroup
  split
  · simp
  · split
    · simp
    · exact exportLoop_iff _ []

end

end DedupCommando
