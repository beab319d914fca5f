import DedupCommando.Lib.Sql
import DedupCommando.Lib.Transaction
import DedupCommando.Model.Plan

/-!
# The tables of one scan

What a checkpoint holds of one scan for its results, cell by cell.

* `FileRow`, `GroupRow`, `MemberRow`, `ScanTables` — `file`, `file_group`, `file_group_member`,
  `scan_membership` and the totals of `scan_stats`.
* `Database` — the scans there are, and the tables of each.
* `Keyed` — what the primary keys of the schema promise.
* `getInteger`, `getString`, `getText` — a cell read as a Rust value.
* `MembershipMode`, `decodeAuthority` — the authority row.
-/

set_option autoImplicit false

namespace DedupCommando

open Sql (Value)

/-! ## Rows -/

/-- A row of `file`. -/
structure FileRow where
  path : Value
  size : Value
  mtime : Int
  mtimeNsec : Int
  ctimeSec : Int
  ctimeNsec : Int
  identityVersion : Int
  device : Int
  inode : Int
  nlink : Value
  hash : Value

/-- A row of `file_group`. -/
structure GroupRow where
  rowid : Int
  rank : Value
  hash : Value
  fileCount : Value
  size : Value
  reclaim : Value
  objectCount : Value
  reclaimState : Value

/-- A row of `file_group_member`. -/
structure MemberRow where
  groupRank : Value
  path : Value
  generation : Value

/-- The totals of `scan_stats` and the marker of prepared results. -/
structure ScanStats where
  reclaimableBytes : Int
  reclaimState : Int
  resultsMaterialized : Bool

/-- Everything that is stored of one scan's results.  The scan is the key of `scan_membership` and
of `scan_stats`. -/
structure ScanTables where
  file : List FileRow
  fileGroup : List GroupRow
  member : List MemberRow
  membership : Option (Value × Value)
  stats : Option ScanStats

/-- A checkpoint: which scans have a row, and the tables of every scan id. -/
structure Database where
  hasScan : Int → Bool
  tables : Int → ScanTables

/-- The primary keys of `file` and `file_group`. -/
structure ScanTables.Keyed (t : ScanTables) : Prop where
  paths : t.file.Pairwise fun a b => Value.same a.path b.path = false
  ranks : t.fileGroup.Pairwise fun a b => Value.same a.rank b.rank = false

/-! ## Reading cells -/

/-- A cell of a joined row; the row of NULLs has only NULLs. -/
def cellOf {β : Type} (column : β → Value) (row : Option β) : Value :=
  match row with
  | some row => column row
  | none => .null

/-- A cell read as `i64`. -/
def getInteger (v : Value) : Except String Int :=
  match v with
  | .integer n => .ok n
  | other => .error ("Invalid column type " ++ other.typeof)

/-- A cell read as `Option<i64>`. -/
def getOptInteger (v : Value) : Except String (Option Int) :=
  match v with
  | .null => .ok none
  | .integer n => .ok (some n)
  | other => .error ("Invalid column type " ++ other.typeof)

/-- A cell read as `String`, in its bytes. -/
def getText (v : Value) : Except String Bytes :=
  match v with
  | .text b => if isUtf8 b then .ok b else .error "invalid utf-8 sequence"
  | other => .error ("Invalid column type " ++ other.typeof)

/-- A cell read as `Option<String>`, in its bytes. -/
def getOptText (v : Value) : Except String (Option Bytes) :=
  match v with
  | .null => .ok none
  | .text b => if isUtf8 b then .ok (some b) else .error "invalid utf-8 sequence"
  | other => .error ("Invalid column type " ++ other.typeof)

/-- A cell read as `String`. -/
def getString (v : Value) : Except String String :=
  match v with
  | .text b =>
    match String.fromUTF8? ⟨(b.map fun x => UInt8.ofNat x.val).toArray⟩ with
    | some s => .ok s
    | none => .error "invalid utf-8 sequence"
  | other => .error ("Invalid column type " ++ other.typeof)

/-- A cell read as `Option<String>`. -/
def getOptString (v : Value) : Except String (Option String) :=
  match v with
  | .null => .ok none
  | v => (getString v).map some

theorem getInteger_ok {v : Value} {n : Int} : getInteger v = .ok n ↔ v = .integer n := by
  cases v <;> simp [getInteger]

theorem getOptInteger_ok {v : Value} {o : Option Int} :
    getOptInteger v = .ok o ↔ (v = .null ∧ o = none) ∨ ∃ n, v = .integer n ∧ o = some n := by
  cases v <;> simp [getOptInteger, eq_comm]

theorem getText_ok {v : Value} {b : Bytes} : getText v = .ok b ↔ v = .text b ∧ isUtf8 b = true := by
  cases v with
  | text c =>
    simp only [getText, Value.text.injEq]
    split
    · rename_i h
      constructor
      · intro hb; cases hb; exact ⟨rfl, h⟩
      · rintro ⟨rfl, -⟩; rfl
    · rename_i h
      constructor
      · intro hb; cases hb
      · rintro ⟨rfl, hb⟩; exact absurd hb h
  | _ => simp [getText]

theorem getOptText_ok {v : Value} {o : Option Bytes} :
    getOptText v = .ok o ↔ (v = .null ∧ o = none) ∨ ∃ b, getText v = .ok b ∧ o = some b := by
  cases v with
  | text c =>
    simp only [getOptText, getText]
    split <;> simp [eq_comm]
  | _ => simp [getOptText, getText, eq_comm]

theorem getOptString_ok {v : Value} {o : Option String} :
    getOptString v = .ok o ↔ (v = .null ∧ o = none) ∨ ∃ s, getString v = .ok s ∧ o = some s := by
  cases v with
  | null => simp [getOptString, getString, eq_comm]
  | text b =>
    simp only [getOptString]
    cases getString (.text b) <;> simp [Except.map, eq_comm]
  | _ => simp [getOptString, getString, Except.map]

/-! ## The authority -/

/-- Which writer's rows a scan's membership is read from. -/
inductive MembershipMode where
  | unknown
  | derived
  | explicit
  deriving DecidableEq

/-- An authority cell for a message. -/
def authorityCell (v : Value) : String :=
  match v with
  | .integer raw => toString raw
  | other => other.typeof

/-- `decode_authority`: a known mode and a positive generation. -/
def decodeAuthority (mode generation : Value) : Except String (MembershipMode × Int) :=
  let decoded : Except String MembershipMode := match mode with
    | .integer 1 => .ok .derived
    | .integer 2 => .ok .explicit
    | other => .error ("scan_membership.mode holds " ++ authorityCell other ++
        " — not a known membership mode")
  match decoded with
  | .error e => .error e
  | .ok mode =>
    let bad : Except String (MembershipMode × Int) :=
      .error ("scan_membership.generation holds " ++ authorityCell generation ++
        " — not a positive publication generation")
    match generation with
    | .integer g => if 0 < g then .ok (mode, g) else bad
    | _ => bad

theorem decodeAuthority_ok {mode generation : Value} {m : MembershipMode} {g : Int}
    (h : decodeAuthority mode generation = .ok (m, g)) :
    ((mode = .integer 1 ∧ m = .derived) ∨ (mode = .integer 2 ∧ m = .explicit)) ∧
      generation = .integer g ∧ 0 < g := by
  unfold decodeAuthority at h
  simp only at h
  split at h
  · cases h
  rename_i m' hmode
  split at h
  · rename_i g'
    split at h
    · rename_i hg
      cases h
      refine ⟨?_, rfl, hg⟩
      split at hmode
      · cases hmode; exact .inl ⟨rfl, rfl⟩
      · cases hmode; exact .inr ⟨rfl, rfl⟩
      · cases hmode
    · cases h
  · cases h

end DedupCommando
