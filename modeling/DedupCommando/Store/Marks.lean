import DedupCommando.Model.GroupReclaim
import DedupCommando.Model.Settlement
import DedupCommando.Store.Tables

/-!
# The durable marks

The `file_mark` table, the one decoder of a mark, and its two writers.

* `MarkRow`, `findMark`, `clearMark`, `upsertMark` — the rows and the statements on them.
* `decodeMark`, `markAt` — what a row means, and what a LEFT JOIN on a pathname reads.
* `reconcileMarksAfterBatch` — the durable half of a settled batch.
* `wantedFrom`, `saveMarksSettled` — the writer that reads its own after-image back.

A pathname is stored as text, so the writers work on the spelling of a path and not on its
components.
-/

set_option autoImplicit false

namespace DedupCommando

open Sql (Value)

/-- A row of `file_mark`. -/
structure MarkRow where
  scanId : Int
  path : Value
  isKeeper : Value
  action : Value

/-- The bytes of an identifier of plain ASCII letters. -/
def asciiBytes (s : String) : Bytes := s.toList.map fun c => Fin.ofNat 256 c.toNat

/-- `ActionKind::parse` -/
def ActionKind.parse (text : Bytes) : Option ActionKind :=
  [ActionKind.delete, .hardlink, .reflink].find? fun kind => decide (asciiBytes kind.asStr = text)

theorem ActionKind.parse_asStr (kind : ActionKind) :
    ActionKind.parse (asciiBytes kind.asStr) = some kind := by
  cases kind <;> decide

/-! ## Statements -/

/-- `scan_id = ?1 AND path = ?2` -/
def MarkRow.names (scanId : Int) (text : Bytes) (r : MarkRow) : Bool :=
  decide (r.scanId = scanId) && Value.same r.path (.text text)

theorem MarkRow.names_iff {scanId : Int} {text : Bytes} {r : MarkRow} :
    r.names scanId text = true ↔ r.scanId = scanId ∧ r.path = .text text := by
  simp [MarkRow.names]

/-- The row of one pathname: the primary key admits one. -/
def findMark (scanId : Int) (text : Bytes) (rows : List MarkRow) : Option MarkRow :=
  rows.find? (MarkRow.names scanId text)

/-- `DELETE FROM file_mark WHERE scan_id = ?1 AND path = ?2` -/
def clearMark (scanId : Int) (text : Bytes) (rows : List MarkRow) : List MarkRow :=
  rows.filter fun r => !r.names scanId text

/-- `INSERT OR REPLACE INTO file_mark` -/
def upsertMark (row : MarkRow) (text : Bytes) (rows : List MarkRow) : List MarkRow :=
  clearMark row.scanId text rows ++ [row]

/-! ## What a mark means -/

/-- Why a mark does not decode: the cell that is out of its domain, or two fates for one file. -/
inductive MarkDecodeError where
  | corrupt (path : Bytes) (field : String) (cell : Value)
  | contradictory (path : Bytes)
  deriving DecidableEq

/-- `decode_mark`: `present` tells a row of NULLs from no row. -/
def decodeMark (path : Bytes) (present : Bool) (isKeeper action : Value) :
    Except MarkDecodeError (Option MarkIntent) :=
  if present = false then
    match isKeeper, action with
    | .null, .null => .ok none
    | .null, other => .error (.corrupt path "action" other)
    | other, _ => .error (.corrupt path "is_keeper" other)
  else
    let keeper : Except MarkDecodeError Bool :=
      if isKeeper = .integer 0 then .ok false
      else if isKeeper = .integer 1 then .ok true
      else .error (.corrupt path "is_keeper" isKeeper)
    match keeper with
    | .error e => .error e
    | .ok keeper =>
      let kind : Except MarkDecodeError (Option ActionKind) :=
        match action with
        | .null => .ok none
        | .text text =>
          match ActionKind.parse text with
          | some kind => .ok (some kind)
          | none => .error (.corrupt path "action" (.text text))
        | other => .error (.corrupt path "action" other)
      match kind with
      | .error e => .error e
      | .ok kind =>
        match keeper, kind with
        | true, some _ => .error (.contradictory path)
        | true, none => .ok (some .keeper)
        | false, some kind => .ok (some (.act kind))
        | false, none => .ok none

/-- The mark a LEFT JOIN reads for one pathname of a scan. -/
def markAt (scanId : Int) (text : Bytes) (rows : List MarkRow) :
    Except MarkDecodeError (Option MarkIntent) :=
  match findMark scanId text rows with
  | none => decodeMark text false .null .null
  | some row => decodeMark text true row.isKeeper row.action

/-- The pathname carries a mark. -/
def Marked (scanId : Int) (text : Bytes) (rows : List MarkRow) : Prop :=
  ∃ intent, markAt scanId text rows = .ok (some intent)

theorem markAt_congr {scanId : Int} {text : Bytes} {rows rows' : List MarkRow}
    (h : findMark scanId text rows = findMark scanId text rows') :
    markAt scanId text rows = markAt scanId text rows' := by
  unfold markAt
  rw [h]

theorem markAt_none {scanId : Int} {text : Bytes} {rows : List MarkRow}
    (h : findMark scanId text rows = none) : markAt scanId text rows = .ok none := by
  unfold markAt
  rw [h]
  rfl

/-! ## Clearing and replacing one row -/

theorem findMark_clear_self (scanId : Int) (text : Bytes) (rows : List MarkRow) :
    findMark scanId text (clearMark scanId text rows) = none := by
  unfold findMark clearMark
  rw [List.find?_eq_none]
  intro r hr
  have := (List.mem_filter.1 hr).2
  simpa using this

theorem findMark_clear_other {scanId other : Int} {text text' : Bytes} (rows : List MarkRow)
    (h : ¬(scanId = other ∧ text = text')) :
    findMark scanId text (clearMark other text' rows) = findMark scanId text rows := by
  unfold findMark clearMark
  rw [List.find?_filter]
  congr 1
  funext r
  cases hnames : r.names scanId text
  · simp
  · have hne : r.names other text' = false := by
      rw [Bool.eq_false_iff]
      intro hother
      obtain ⟨hs, hp⟩ := MarkRow.names_iff.1 hnames
      obtain ⟨ho, hp'⟩ := MarkRow.names_iff.1 hother
      exact h ⟨hs.symm.trans ho, by simpa using hp.symm.trans hp'⟩
    simp [hne]

theorem findMark_upsert_self {row : MarkRow} {text : Bytes} (rows : List MarkRow)
    (hpath : row.path = .text text) :
    findMark row.scanId text (upsertMark row text rows) = some row := by
  have hclear := findMark_clear_self row.scanId text rows
  have hself : row.names row.scanId text = true := MarkRow.names_iff.2 ⟨rfl, hpath⟩
  unfold findMark upsertMark at *
  rw [List.find?_append, hclear]
  simp [hself]

theorem findMark_upsert_other {scanId : Int} {text text' : Bytes} {row : MarkRow}
    (rows : List MarkRow) (hpath : row.path = .text text')
    (h : ¬(scanId = row.scanId ∧ text = text')) :
    findMark scanId text (upsertMark row text' rows) = findMark scanId text rows := by
  have hclear := findMark_clear_other rows h
  have hother : row.names scanId text = false := by
    rw [Bool.eq_false_iff]
    intro hnames
    obtain ⟨hs, hp⟩ := MarkRow.names_iff.1 hnames
    exact h ⟨hs.symm, by simpa using hp.symm.trans hpath⟩
  unfold findMark upsertMark at *
  rw [List.find?_append, hclear]
  simp [hother]

/-! ## The settlement of a batch -/

/-- The statements of `reconcile_marks_after_batch`, one for each spent pathname. -/
def clearMarks (scanId : Int) (spent : List Bytes) (rows : List MarkRow) : List MarkRow :=
  spent.foldl (fun rows text => clearMark scanId (lossyUtf8 text) rows) rows

/-- `reconcile_marks_after_batch`: one transaction, rolled back by the first `fault` of the
engine. -/
def reconcileMarksAfterBatch (fault : Option String) (scanId : Int) (spent : List Bytes)
    (rows : List MarkRow) : Except String Unit × List MarkRow :=
  match fault with
  | some e => (.error e, rows)
  | none => (.ok (), clearMarks scanId spent rows)

theorem mem_clearMarks {scanId : Int} {spent : List Bytes} {r : MarkRow} :
    ∀ {rows : List MarkRow}, r ∈ clearMarks scanId spent rows ↔
      r ∈ rows ∧ ¬(r.scanId = scanId ∧ ∃ text ∈ spent, r.path = .text (lossyUtf8 text)) := by
  unfold clearMarks
  induction spent with
  | nil => simp
  | cons text spent ih =>
    intro rows
    rw [List.foldl_cons, ih, clearMark, List.mem_filter, Bool.not_eq_true', Bool.eq_false_iff]
    simp only [ne_eq, MarkRow.names_iff, List.mem_cons, exists_eq_or_imp]
    rw [and_assoc, ← not_or, ← and_or_left]

/-- A pathname that is not spent keeps its row. -/
theorem findMark_clearMarks {scanId : Int} {spent : List Bytes} {text : Bytes} :
    ∀ {rows : List MarkRow}, (∀ t ∈ spent, text ≠ lossyUtf8 t) →
      findMark scanId text (clearMarks scanId spent rows) = findMark scanId text rows := by
  unfold clearMarks
  induction spent with
  | nil => simp
  | cons t spent ih =>
    intro rows hne
    rw [List.foldl_cons, ih fun t ht => hne t (List.mem_cons_of_mem _ ht)]
    apply findMark_clear_other
    rintro ⟨-, htext⟩
    exact hne t List.mem_cons_self htext

/-! ## The settled writer -/

/-- A `FileEntry` with the mark it carries. -/
structure MarkedEntry extends FileEntry where
  isKeeper : Bool
  action : Option ActionKind

/-- Two `PathBuf`s are equal when their components are. -/
def samePathBuf (a b : Bytes) : Bool := decide (pathOrder a = pathOrder b)

inductive MarkWriteError where
  | requestContradictsItself (path : Bytes)
  | notInManifest (path : Bytes)
  | nameNotUtf8 (path : Bytes)
  | decode (e : MarkDecodeError)
  | pathChanged (detail : String)
  | store (detail : String)

/-- The loop over the request: each pathname once, and one meaning for it. -/
def wantedFrom (wanted : List MarkedEntry) : List MarkedEntry →
    Except MarkWriteError (List MarkedEntry)
  | [] => .ok wanted
  | file :: files =>
    if isUtf8 file.path = false then .error (.nameNotUtf8 file.path)
    else
      match wanted.find? fun seen => samePathBuf seen.path file.path with
      | some seen =>
        if seen.isKeeper ≠ file.isKeeper ∨ seen.action ≠ file.action then
          .error (.requestContradictsItself file.path)
        else wantedFrom wanted files
      | none => wantedFrom (wanted ++ [file]) files

/-- The row a marked entry is stored as. -/
def MarkedEntry.row (scanId : Int) (file : MarkedEntry) : MarkRow :=
  { scanId := scanId
    path := .text (lossyUtf8 file.path)
    isKeeper := .integer (if file.isKeeper then 1 else 0)
    action := (file.action.map fun kind => Value.text (asciiBytes kind.asStr)).getD .null }

/-- One pathname of the request, once the manifest knows it. -/
def writeMark (scanId : Int) (file : MarkedEntry) (rows : List MarkRow) : List MarkRow :=
  if file.isKeeper = false ∧ file.action = none then clearMark scanId (lossyUtf8 file.path) rows
  else upsertMark (file.row scanId) (lossyUtf8 file.path) rows

def writeMarks (scanId : Int) (manifest : List FileRow) :
    List MarkedEntry → List MarkRow → Except MarkWriteError (List MarkRow)
  | [], rows => .ok rows
  | file :: files, rows =>
    if manifest.any fun f => Value.same f.path (.text (lossyUtf8 file.path)) then
      writeMarks scanId manifest files (writeMark scanId file rows)
    else .error (.notInManifest file.path)

/-- The read-back, inside the transaction. -/
def readBack (scanId : Int) (rows : List MarkRow) :
    List MarkedEntry → Except MarkWriteError (List (Bytes × Option MarkIntent))
  | [] => .ok []
  | file :: files =>
    match markAt scanId (lossyUtf8 file.path) rows with
    | .error e => .error (.decode e)
    | .ok intent =>
      match readBack scanId rows files with
      | .error e => .error e
      | .ok after => .ok ((file.path, intent) :: after)

/-- `save_marks_settled`: `fault` is a replaced database or an error of the engine, at whichever
statement; every error rolls the transaction back. -/
def saveMarksSettled (fault : Option MarkWriteError) (scanId : Int) (manifest : List FileRow)
    (files : List MarkedEntry) (rows : List MarkRow) :
    Except MarkWriteError (List (Bytes × Option MarkIntent)) × List MarkRow :=
  match fault with
  | some e => (.error e, rows)
  | none =>
    match wantedFrom [] files with
    | .error e => (.error e, rows)
    | .ok wanted =>
      match writeMarks scanId manifest wanted rows with
      | .error e => (.error e, rows)
      | .ok written =>
        match readBack scanId written wanted with
        | .error e => (.error e, rows)
        | .ok after => (.ok after, written)

/-- A refused write changes nothing. -/
theorem saveMarksSettled_error {fault : Option MarkWriteError} {scanId : Int}
    {manifest : List FileRow} {files : List MarkedEntry} {rows : List MarkRow} {e : MarkWriteError}
    (h : (saveMarksSettled fault scanId manifest files rows).1 = .error e) :
    (saveMarksSettled fault scanId manifest files rows).2 = rows := by
  unfold saveMarksSettled at *
  cases fault with
  | some => rfl
  | none =>
    cases hwanted : wantedFrom [] files with
    | error => simp only
    | ok wanted =>
      cases hwritten : writeMarks scanId manifest wanted rows with
      | error => simp only [hwritten]
      | ok written =>
        cases hafter : readBack scanId written wanted with
        | error => simp only [hwritten, hafter]
        | ok after => simp only [hwanted, hwritten, hafter] at h; cases h

/-- A request of distinct pathnames is wanted as it stands. -/
theorem wantedFrom_ok {files : List MarkedEntry} : ∀ {wanted out : List MarkedEntry},
    (wanted ++ files).Pairwise (fun a b => samePathBuf a.path b.path = false) →
    wantedFrom wanted files = .ok out → out = wanted ++ files := by
  induction files with
  | nil =>
    intro wanted out _ h
    cases h
    simp
  | cons file files ih =>
    intro wanted out hdistinct h
    unfold wantedFrom at h
    split at h
    · cases h
    have hnone : wanted.find? (fun seen => samePathBuf seen.path file.path) = none := by
      rw [List.find?_eq_none]
      intro seen hseen
      have := (List.pairwise_append.1 hdistinct).2.2 seen hseen file List.mem_cons_self
      simpa using this
    rw [hnone] at h
    rw [ih (by simpa using hdistinct) h]
    simp

/-- What a successful write leaves: each pathname's own row, and every other row as it was. -/
theorem writeMarks_ok {scanId : Int} {manifest : List FileRow} {files : List MarkedEntry} :
    ∀ {rows written : List MarkRow}, writeMarks scanId manifest files rows = .ok written →
      (∀ f ∈ files, ¬(f.isKeeper = false ∧ f.action = none)) →
      (files.map fun f => lossyUtf8 f.path).Nodup →
      (∀ f ∈ files, findMark scanId (lossyUtf8 f.path) written = some (f.row scanId)) ∧
        ∀ scan text, ¬(scan = scanId ∧ ∃ f ∈ files, text = lossyUtf8 f.path) →
          findMark scan text written = findMark scan text rows := by
  induction files with
  | nil =>
    intro rows written h _ _
    cases h
    exact ⟨by simp, fun _ _ _ => rfl⟩
  | cons file files ih =>
    intro rows written h hmarked hnodup
    unfold writeMarks at h
    split at h
    · obtain ⟨hnotin, hnodup⟩ := List.nodup_cons.1 hnodup
      obtain ⟨hown, hother⟩ := ih h (fun f hf => hmarked f (List.mem_cons_of_mem _ hf)) hnodup
      have hwrite : writeMark scanId file rows =
          upsertMark (file.row scanId) (lossyUtf8 file.path) rows :=
        if_neg (hmarked file List.mem_cons_self)
      rw [hwrite] at hother
      constructor
      · intro f hf
        rcases List.mem_cons.1 hf with rfl | hf
        · rw [hother]
          · exact @findMark_upsert_self (f.row scanId) (lossyUtf8 f.path) rows rfl
          · rintro ⟨-, g, hg, heq⟩
            exact hnotin (List.mem_map.2 ⟨g, hg, heq.symm⟩)
        · exact hown f hf
      · intro scan text hne
        rw [hother scan text]
        · apply findMark_upsert_other rows rfl
          rintro ⟨hscan, htext⟩
          exact hne ⟨hscan, file, List.mem_cons_self, htext⟩
        · rintro ⟨hscan, f, hf, htext⟩
          exact hne ⟨hscan, f, List.mem_cons_of_mem _ hf, htext⟩
    · cases h

theorem markAt_keeper {scanId : Int} {f : MarkedEntry} {rows : List MarkRow}
    (hrow : findMark scanId (lossyUtf8 f.path) rows = some (f.row scanId))
    (hkeeper : f.isKeeper = true) (haction : f.action = none) :
    markAt scanId (lossyUtf8 f.path) rows = .ok (some .keeper) := by
  unfold markAt
  simp only [hrow, MarkedEntry.row, hkeeper, haction]
  rfl

theorem markAt_action {scanId : Int} {f : MarkedEntry} {rows : List MarkRow} {kind : ActionKind}
    (hrow : findMark scanId (lossyUtf8 f.path) rows = some (f.row scanId))
    (hkeeper : f.isKeeper = false) (haction : f.action = some kind) :
    markAt scanId (lossyUtf8 f.path) rows = .ok (some (.act kind)) := by
  unfold markAt
  simp only [hrow, MarkedEntry.row, hkeeper, haction]
  cases kind <;> rfl

end DedupCommando
