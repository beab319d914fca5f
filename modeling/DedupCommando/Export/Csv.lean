import DedupCommando.Lib.Csv
import DedupCommando.Text
import DedupCommando.Store.ExportStream

/-!
# The CSV of an export

`write_export`: a header and one record for every member of every group, with the keeper rule
applied to each group as a whole.

* `csvField` — control characters spelled out, a formula guarded, then quotes.
* `fallbackKeeper` — the newest unmarked member of a group without a keeper mark.
* `writeExportGroup`, `writeExport` — the rows as they are written.
* `exportRecords` — the same rows as records; `ExportSays` is what a reader of the file relies on.
-/

set_option autoImplicit false

namespace DedupCommando

/-! ## The last maximum -/

section
variable {α κ : Type} [LinearOrder κ] (key : α → κ)

/-- `max_by`: the later of two elements that compare equal. -/
def laterMax (a b : α) : α := if key b < key a then a else b

def lastMax : List α → Option α
  | [] => none
  | a :: l => some (l.foldl (laterMax key) a)

variable {key}

theorem foldl_laterMax (l : List α) (a : α) :
    l.foldl (laterMax key) a ∈ a :: l ∧ ∀ b ∈ a :: l, key b ≤ key (l.foldl (laterMax key) a) := by
  induction l generalizing a with
  | nil => simp
  | cons c l ih =>
    obtain ⟨hmem, hle⟩ := ih (laterMax key a c)
    have hstep : laterMax key a c ∈ [a, c] ∧ key a ≤ key (laterMax key a c) ∧
        key c ≤ key (laterMax key a c) := by
      unfold laterMax
      split
      · rename_i h
        exact ⟨by simp, le_rfl, h.le⟩
      · rename_i h
        exact ⟨by simp, not_lt.mp h, le_rfl⟩
    rw [List.foldl_cons]
    have hbest := hle _ List.mem_cons_self
    constructor
    · rcases List.mem_cons.mp hmem with h | h
      · rw [h]
        rcases List.mem_cons.mp hstep.1 with h' | h'
        · simp [h']
        · simp [List.mem_singleton.mp h']
      · simp [h]
    · intro b hb
      rcases List.mem_cons.mp hb with rfl | hb
      · exact hstep.2.1.trans hbest
      · rcases List.mem_cons.mp hb with rfl | hb
        · exact hstep.2.2.trans hbest
        · exact hle b (List.mem_cons_of_mem _ hb)

theorem lastMax_spec {l : List α} {a : α} (h : lastMax key l = some a) :
    a ∈ l ∧ ∀ b ∈ l, key b ≤ key a := by
  cases l with
  | nil => cases h
  | cons c l =>
    have := @foldl_laterMax _ _ _ key l c
    rwa [Option.some.inj h] at this

theorem lastMax_eq_none {l : List α} : lastMax key l = none ↔ l = [] := by
  cases l <;> simp [lastMax]

end

/-! ## Cells -/

/-- A cell that a spreadsheet would run. -/
def startsFormula (c : Char) : Bool := decide (c ∈ ['=', '+', '-', '@', '\t', '\r'])

def apostrophe : Char := Char.ofNat 39

/-- The text of a cell: control characters spelled out, a formula behind an apostrophe. -/
def csvText (value : String) : List Char :=
  let value := (terminal value).toList
  if value.head?.any startsFormula then apostrophe :: value else value

/-- `csv_field` -/
def csvField (value : String) : List Char := Csv.field (csvText value)

/-! ## The keeper of a group -/

/-- `marked_keeper` -/
def ExportMember.markedKeeper (m : ExportMember) : Bool := decide (m.mark = some .keeper)

/-- What the fallback compares: the time, its nanoseconds, then the pathname. -/
def ExportMember.age (m : ExportMember) : ℤ ×ₗ ℤ ×ₗ List (ℕ ×ₗ Bytes) :=
  toLex (m.mtime, toLex (m.mtimeNsec, pathOrder m.path))

/-- The index of the keeper that is computed where no member is marked as one. -/
def fallbackKeeper (members : List ExportMember) : Option Nat :=
  if members.any ExportMember.markedKeeper then none
  else
    (lastMax (fun p : ExportMember × Nat => p.1.age)
      (members.zipIdx.filter fun p => p.1.mark.isNone)).map Prod.snd

/-- The `keep` of one row. -/
def keptRow (members : List ExportMember) (index : Nat) (m : ExportMember) : Bool :=
  m.markedKeeper || decide (fallbackKeeper members = some index)

def markCell : Option MarkIntent → String
  | some .keeper => "keeper"
  | some (.act kind) => kind.asStr
  | none => ""

/-- Where a row's `keep` came from. -/
def keepSource (members : List ExportMember) (m : ExportMember) : String :=
  if members.any ExportMember.markedKeeper || m.mark.isSome then "mark" else "default"

/-! ## Rows -/

/-- `EXPORT_HEADER` -/
def exportHeader : String :=
  "group,keep,size_bytes,hash,path,scan_id,generation,device,inode,links,mark,keep_source\n"

/-- One row as it is written. -/
def exportLine (g : ExportGroup) (index : Nat) (m : ExportMember) : List Char :=
  [','].intercalate
    [(toString g.id.rank).toList, (if keptRow g.members index m then "1" else "0").toList,
      (toString m.size).toList, csvField g.hash, csvField (Bytes.display m.path),
      (toString g.id.scanId).toList, (toString g.id.generation).toList, (toString m.device).toList,
      (toString m.inode).toList, (toString m.links).toList, (markCell m.mark).toList,
      (keepSource g.members m).toList] ++ ['\n']

/-- `write_export_group` -/
def writeExportGroup : ExportSink (List Char) := fun g written =>
  if !g.members.any ExportMember.markedKeeper && (fallbackKeeper g.members).isNone then
    .error ⟨s!"group {g.id.rank} of scan {g.id.scanId} has every pathname marked for an action and " ++
      "no keeper — a CSV of that group would read as «delete every copy». Mark a keeper (F7) or " ++
      "clear one action, then export again. Nothing was written."⟩
  else .ok (written ++ g.members.zipIdx.flatMap fun p => exportLine g p.2 p.1)

/-- `write_export` over the groups that the stream hands it. -/
def writeExport (groups : List ExportGroup) : Except AppError (List Char) :=
  writeExportGroup.run groups exportHeader.toList

/-- `write_export` of a snapshot. -/
def exportSnapshot (src : ExportSource) : Except AppError (ExportTotals × List Char) :=
  forEachExportGroup src writeExportGroup exportHeader.toList

/-- **A snapshot is written as the groups that its stream hands over.** -/
theorem exportSnapshot_iff {src : ExportSource} {totals : ExportTotals} {text : List Char} :
    exportSnapshot src = .ok (totals, text) ↔
      ∃ groups, forEachExportGroup src collected [] = .ok (totals, groups) ∧
        writeExport groups = .ok text :=
  forEachExportGroup_iff

/-! ## Records -/

/-- The path cell of a row. -/
def pathCell (m : ExportMember) : List Char := csvText (Bytes.display m.path)

/-- One row as a record. -/
def exportRecord (g : ExportGroup) (index : Nat) (m : ExportMember) : Csv.Record :=
  [(toString g.id.rank).toList, (if keptRow g.members index m then "1" else "0").toList,
    (toString m.size).toList, csvText g.hash, pathCell m, (toString g.id.scanId).toList,
    (toString g.id.generation).toList, (toString m.device).toList, (toString m.inode).toList,
    (toString m.links).toList, (markCell m.mark).toList, (keepSource g.members m).toList]

def exportRecords (g : ExportGroup) : List Csv.Record :=
  g.members.zipIdx.map fun p => exportRecord g p.2 p.1

def headerRecord : Csv.Record :=
  ["group", "keep", "size_bytes", "hash", "path", "scan_id", "generation", "device", "inode",
    "links", "mark", "keep_source"].map String.toList

theorem header_line : exportHeader.toList = Csv.line headerRecord := by decide

/-- A text that needs no quotes and breaks no line. -/
def clean (text : List Char) : Prop := text.any Csv.special = false

theorem clean_nat (n : Nat) : clean (toString n).toList := by
  unfold clean
  rw [List.any_eq_false]
  intro c hc
  rw [Nat.toString_eq_repr, Nat.toList_repr] at hc
  have hdigit : c.isDigit = true := Nat.isDigit_of_mem_toDigits (by decide) (by decide) hc
  unfold Csv.special
  rw [decide_eq_true_eq]
  rintro (rfl | rfl | rfl | rfl) <;> exact absurd hdigit (by decide)

theorem clean_int (n : Int) : clean (toString n).toList := by
  cases n with
  | ofNat n => exact clean_nat n
  | negSucc n =>
    have h := clean_nat (n + 1)
    unfold clean at h ⊢
    change ("-" ++ toString (n + 1)).toList.any Csv.special = false
    rw [String.toList_append, List.any_append, h]
    rfl

theorem clean_mark (mark : Option MarkIntent) : clean (markCell mark).toList := by
  rcases mark with _ | _ | kind
  · rfl
  · rfl
  · cases kind <;> rfl

theorem clean_source (members : List ExportMember) (m : ExportMember) :
    clean (keepSource members m).toList := by
  unfold keepSource
  split <;> rfl

theorem clean_keep (b : Bool) : clean (if b then "1" else "0").toList := by
  cases b <;> rfl

/-- **A row is written as its record.** -/
theorem exportLine_eq (g : ExportGroup) (index : Nat) (m : ExportMember) :
    exportLine g index m = Csv.line (exportRecord g index m) := by
  have hraw : ∀ {text : List Char}, clean text → Csv.field text = text := Csv.field_plain
  unfold exportLine Csv.line
  rw [Csv.joined_eq]
  unfold exportRecord
  simp only [List.map_cons, List.map_nil, hraw (clean_int _), hraw (clean_nat _),
    hraw (clean_keep _), hraw (clean_mark _), hraw (clean_source _ _)]
  rfl

/-! ## No line breaks -/

/-- An escape holds no control character. -/
theorem isControl_escapeControl {c : Char} (hc : isControl c = true) :
    ∀ d ∈ (escapeControl c).toList, isControl d = false := by
  have hfixed : ∀ {text : List Char}, (text.all fun d => !isControl d) = true →
      ∀ d ∈ text, isControl d = false := by
    intro text htext d hd
    simpa using List.all_eq_true.mp htext d hd
  have hescape : ∀ n : Fin 160, ((Nat.toDigits 16 n.val).all fun d => !isControl d) = true := by
    decide +kernel
  have hlt : c.toNat < 160 := by
    unfold isControl at hc
    rw [decide_eq_true_eq] at hc
    rcases hc with h | ⟨-, h⟩
    · exact (UInt32.lt_iff_toNat_lt.mp h).trans (by decide)
    · exact Nat.lt_succ_of_le (UInt32.le_iff_toNat_le.mp h)
  unfold escapeControl
  split
  · exact hfixed (by decide)
  · split
    · exact hfixed (by decide)
    · split
      · exact hfixed (by decide)
      · intro d hd
        simp only [String.toList_append, String.toList_ofList, List.mem_append] at hd
        rcases hd with ((hd | hd) | hd) | hd
        · exact hfixed (by decide) d hd
        · exact hfixed (by decide) d hd
        · exact hfixed (hescape ⟨c.toNat, hlt⟩) d hd
        · exact hfixed (by decide) d hd

/-- Nothing that is shown is a control character. -/
theorem isControl_terminal (text : String) : ∀ c ∈ (terminal text).toList, isControl c = false := by
  rw [toList_terminal]
  intro d hd
  obtain ⟨c, -, hd⟩ := List.mem_flatMap.mp hd
  unfold terminalChar at hd
  split at hd
  · rename_i hc
    exact isControl_escapeControl hc d hd
  · rename_i hc
    rw [List.mem_singleton.mp hd]
    exact Bool.eq_false_iff.mpr hc

theorem isControl_csvText (value : String) : ∀ c ∈ csvText value, isControl c = false := by
  unfold csvText
  dsimp only
  split
  · intro c hc
    rcases List.mem_cons.mp hc with rfl | hc
    · decide
    · exact isControl_terminal value c hc
  · exact isControl_terminal value

/-- **A record is one line.** -/
theorem exportRecord_line (g : ExportGroup) (index : Nat) (m : ExportMember) {c : Char}
    (hc : c = '\n' ∨ c = '\r') : c ∉ Csv.joined (exportRecord g index m) := by
  have hspecial : Csv.special c = true := by
    rcases hc with rfl | rfl <;> decide
  have hcontrol : isControl c = true := by
    rcases hc with rfl | rfl <;> decide
  have hraw : ∀ {text : List Char}, clean text → c ∉ text := fun htext hin =>
    absurd hspecial (List.any_eq_false.mp htext c hin)
  have hcell : ∀ value, c ∉ csvText value := fun value hin =>
    absurd hcontrol (Bool.eq_false_iff.mp (isControl_csvText value c hin))
  refine Csv.joined_no_break (by rcases hc with rfl | rfl <;> decide) fun text htext => ?_
  unfold exportRecord at htext
  simp only [List.mem_cons, List.not_mem_nil, or_false] at htext
  rcases htext with rfl | rfl | rfl | rfl | rfl | rfl | rfl | rfl | rfl | rfl | rfl | rfl
  · exact hraw (clean_int _)
  · exact hraw (clean_keep _)
  · exact hraw (clean_nat _)
  · exact hcell _
  · exact hcell _
  · exact hraw (clean_int _)
  · exact hraw (clean_int _)
  · exact hraw (clean_nat _)
  · exact hraw (clean_nat _)
  · exact hraw (clean_nat _)
  · exact hraw (clean_mark _)
  · exact hraw (clean_source _ _)

/-! ## Names -/

/-- A name with nothing to spell out and nothing to guard. -/
def plainName (path : Bytes) : Prop :=
  (Bytes.display path).toList.any isControl = false ∧
    (Bytes.display path).toList.head?.any startsFormula = false

theorem terminal_plain {text : String} (h : text.toList.any isControl = false) :
    (terminal text).toList = text.toList := by
  rw [toList_terminal]
  rw [List.any_eq_false] at h
  calc text.toList.flatMap terminalChar = text.toList.flatMap fun c => [c] := by
        refine List.flatMap_congr fun c hc => ?_
        unfold terminalChar
        rw [if_neg (h c hc)]
    _ = text.toList := by simp

theorem pathCell_plain {m : ExportMember} (h : plainName m.path) :
    pathCell m = (Bytes.display m.path).toList := by
  unfold pathCell csvText
  dsimp only
  rw [terminal_plain h.1, h.2]
  rfl

/-- **The path cell of a plain name is read back**, if the name is a text. -/
theorem pathCell_read {m : ExportMember} (h : plainName m.path) {text : String}
    (htext : m.path = utf8 text) : utf8 (String.ofList (pathCell m)) = m.path := by
  rw [pathCell_plain h, htext, display_utf8, String.ofList_toList]

/-! ## The keeper column -/

/-- A group without a keeper mark and without an unmarked member. -/
def ExportGroup.hopeless (g : ExportGroup) : Prop :=
  ∀ m ∈ g.members, m.mark ≠ some .keeper ∧ m.mark ≠ none

/-- The row at an index says `keep = 1`. -/
def keptAt (g : ExportGroup) (i : Nat) : Prop :=
  ∃ r, (exportRecords g)[i]? = some r ∧ r[1]? = some ['1']

theorem exportRecords_get (g : ExportGroup) (i : Nat) :
    (exportRecords g)[i]? = (g.members[i]?).map fun m => exportRecord g i m := by
  unfold exportRecords
  rw [List.getElem?_map, List.getElem?_zipIdx, Option.map_map, Nat.zero_add]
  rfl

theorem keptAt_iff {g : ExportGroup} {i : Nat} :
    keptAt g i ↔ ∃ m, g.members[i]? = some m ∧ keptRow g.members i m = true := by
  unfold keptAt
  rw [exportRecords_get]
  constructor
  · rintro ⟨r, hr, hkeep⟩
    obtain ⟨m, hm, rfl⟩ := Option.map_eq_some_iff.mp hr
    refine ⟨m, hm, ?_⟩
    by_contra hno
    rw [Bool.not_eq_true] at hno
    simp [exportRecord, hno] at hkeep
  · rintro ⟨m, hm, hkeep⟩
    exact ⟨_, Option.map_eq_some_iff.mpr ⟨m, hm, rfl⟩, by simp [exportRecord, hkeep]⟩

theorem any_markedKeeper {members : List ExportMember} :
    members.any ExportMember.markedKeeper = true ↔ ∃ m ∈ members, m.mark = some .keeper := by
  rw [List.any_eq_true]
  unfold ExportMember.markedKeeper
  simp only [decide_eq_true_eq]

/-- The computed keeper is an unmarked member, and no unmarked member is newer. -/
theorem fallbackKeeper_spec {members : List ExportMember} {i : Nat}
    (h : fallbackKeeper members = some i) :
    ∃ m, members[i]? = some m ∧ m.mark = none ∧
      ∀ m' ∈ members, m'.mark = none → m'.age ≤ m.age := by
  unfold fallbackKeeper at h
  split at h
  · cases h
  · obtain ⟨⟨m, j⟩, hlast, hj⟩ := Option.map_eq_some_iff.mp h
    obtain ⟨hmem, hmax⟩ := lastMax_spec hlast
    subst hj
    obtain ⟨hzip, hmark⟩ := List.mem_filter.mp hmem
    refine ⟨m, List.mem_zipIdx_iff_getElem?.mp hzip, Option.isNone_iff_eq_none.mp hmark, ?_⟩
    intro m' hm' hnone
    obtain ⟨j', hj'⟩ := List.mem_iff_getElem?.mp hm'
    exact hmax (m', j') (List.mem_filter.mpr ⟨List.mem_zipIdx_iff_getElem?.mpr hj', by simp [hnone]⟩)

theorem fallbackKeeper_none {members : List ExportMember}
    (hno : members.any ExportMember.markedKeeper = false) :
    fallbackKeeper members = none ↔ ∀ m ∈ members, m.mark ≠ none := by
  unfold fallbackKeeper
  rw [hno, if_neg (by decide), Option.map_eq_none_iff, lastMax_eq_none, List.filter_eq_nil_iff]
  constructor
  · intro h m hm hnone
    obtain ⟨j, hj⟩ := List.mem_iff_getElem?.mp hm
    exact h (m, j) (List.mem_zipIdx_iff_getElem?.mpr hj) (by simp [hnone])
  · rintro h ⟨m, j⟩ hzip hnone
    exact h m (List.mem_of_getElem? (List.mem_zipIdx_iff_getElem?.mp hzip))
      (Option.isNone_iff_eq_none.mp hnone)

theorem keptRow_marks {members : List ExportMember}
    (h : members.any ExportMember.markedKeeper = true) (i : Nat) (m : ExportMember) :
    keptRow members i m = true ↔ m.mark = some .keeper := by
  unfold keptRow fallbackKeeper ExportMember.markedKeeper
  unfold ExportMember.markedKeeper at h
  rw [if_pos h]
  simp

theorem keptRow_fallback {members : List ExportMember} {i : Nat} {m : ExportMember}
    (h : members.any ExportMember.markedKeeper = false) (hm : m ∈ members) :
    keptRow members i m = true ↔ fallbackKeeper members = some i := by
  have hmark : m.markedKeeper = false := Bool.eq_false_iff.mpr (List.any_eq_false.mp h m hm)
  unfold keptRow
  rw [hmark, Bool.false_or, decide_eq_true_eq]

/-- No row is kept that is marked for an action. -/
theorem keptRow_mark {members : List ExportMember} {i : Nat} {m : ExportMember}
    (hm : members[i]? = some m) (h : keptRow members i m = true) :
    m.mark = some .keeper ∨ m.mark = none := by
  unfold keptRow at h
  rcases Bool.or_eq_true_iff.mp h with h | h
  · exact .inl (of_decide_eq_true h)
  · obtain ⟨m', hm', hnone, -⟩ := fallbackKeeper_spec (of_decide_eq_true h)
    rw [hm] at hm'
    exact .inr (Option.some.inj hm' ▸ hnone)

theorem pathOrder_eq_of_age {m m' : ExportMember} (h : m.age = m'.age) :
    pathOrder m.path = pathOrder m'.path := by
  unfold ExportMember.age at h
  have := congrArg (fun x => (ofLex (ofLex x).2).2) h
  exact this

/-- **Which members are kept does not depend on their order**, where no two pathnames are one path. -/
theorem kept_perm {members members' : List ExportMember} (hperm : members'.Perm members)
    (hapart : (members.map fun m => pathOrder m.path).Nodup) {m : ExportMember} {i : Nat}
    (hm : members[i]? = some m) (hkept : keptRow members i m = true) :
    ∃ j, members'[j]? = some m ∧ keptRow members' j m = true := by
  have hmem : m ∈ members := List.mem_of_getElem? hm
  have hany : members'.any ExportMember.markedKeeper = members.any ExportMember.markedKeeper :=
    hperm.any_eq
  cases hmark : members.any ExportMember.markedKeeper with
  | true =>
    obtain ⟨j, hj⟩ := List.mem_iff_getElem?.mp (hperm.mem_iff.mpr hmem)
    rw [hmark] at hany
    exact ⟨j, hj, (keptRow_marks hany j m).mpr ((keptRow_marks hmark i m).mp hkept)⟩
  | false =>
    rw [hmark] at hany
    obtain ⟨m0, hm0, hnone, hmax⟩ := fallbackKeeper_spec ((keptRow_fallback hmark hmem).mp hkept)
    rw [hm] at hm0
    cases hm0
    cases hfall : fallbackKeeper members' with
    | none =>
      exact absurd hnone ((fallbackKeeper_none hany).mp hfall m (hperm.mem_iff.mpr hmem))
    | some j =>
      obtain ⟨m', hm', hnone', hmax'⟩ := fallbackKeeper_spec hfall
      have hmem' : m' ∈ members := hperm.mem_iff.mp (List.mem_of_getElem? hm')
      have hage : m'.age = m.age :=
        le_antisymm (hmax m' hmem' hnone') (hmax' m (hperm.mem_iff.mpr hmem) hnone)
      have heq : m' = m := List.inj_on_of_nodup_map hapart hmem' hmem (pathOrder_eq_of_age hage)
      subst heq
      exact ⟨j, hm', (keptRow_fallback hany (hperm.mem_iff.mpr hmem)).mpr hfall⟩

/-! ## Runs of the writer -/

theorem writeExportGroup_ok {g : ExportGroup} {written text : List Char} :
    writeExportGroup g written = .ok text ↔
      ¬g.hopeless ∧ text = written ++ (exportRecords g).flatMap Csv.line := by
  have hlines : (g.members.zipIdx.flatMap fun p => exportLine g p.2 p.1) =
      (exportRecords g).flatMap Csv.line := by
    unfold exportRecords
    rw [List.flatMap_map]
    simp only [exportLine_eq]
  have hhopeless : (!g.members.any ExportMember.markedKeeper && (fallbackKeeper g.members).isNone) =
      true ↔ g.hopeless := by
    unfold ExportGroup.hopeless
    cases hmark : g.members.any ExportMember.markedKeeper with
    | true =>
      obtain ⟨m, hm, hk⟩ := any_markedKeeper.mp hmark
      simp only [Bool.not_true, Bool.false_and, Bool.false_eq_true, false_iff, not_forall]
      exact ⟨m, hm, fun h => h.1 hk⟩
    | false =>
      rw [Bool.not_false, Bool.true_and, Option.isNone_iff_eq_none, fallbackKeeper_none hmark]
      constructor
      · intro h m hm
        refine ⟨fun hk => ?_, h m hm⟩
        rw [any_markedKeeper.mpr ⟨m, hm, hk⟩] at hmark
        cases hmark
      · exact fun h m hm => (h m hm).2
  unfold writeExportGroup
  by_cases h : g.hopeless
  · rw [if_pos (hhopeless.mpr h)]
    simp [h]
  · rw [if_neg (mt hhopeless.mp h), hlines]
    simp [h, eq_comm]

/-- The writer over groups. -/
theorem run_ok : ∀ {groups : List ExportGroup} {written text : List Char},
    writeExportGroup.run groups written = .ok text ↔
      (∀ g ∈ groups, ¬g.hopeless) ∧ text = written ++ (groups.flatMap exportRecords).flatMap Csv.line
  | [], written, text => by simp [ExportSink.run, eq_comm]
  | g :: gs, written, text => by
    rw [← List.singleton_append, run_append, List.flatMap_append, List.flatMap_append,
      List.forall_mem_append]
    simp only [run_single, writeExportGroup_ok, run_ok, List.flatMap_singleton, List.mem_singleton,
      forall_eq]
    constructor
    · rintro ⟨mid, ⟨hg, rfl⟩, hgs, rfl⟩
      exact ⟨⟨hg, hgs⟩, List.append_assoc ..⟩
    · rintro ⟨⟨hg, hgs⟩, rfl⟩
      exact ⟨_, ⟨hg, rfl⟩, hgs, (List.append_assoc ..).symm⟩

/-! ## What the file says -/

/-- What a reader of the file relies on, for names that satisfy `readable` and groups whose members
are `apart`. -/
structure ExportSays (readable : Bytes → Prop) (apart : List ExportMember → Prop)
    (groups : List ExportGroup) : Prop where
  parsed : ∀ text, writeExport groups = .ok text →
    Csv.parse text = some (headerRecord :: groups.flatMap exportRecords)
  one_line : ∀ text, writeExport groups = .ok text →
    text = (headerRecord :: groups.flatMap exportRecords).flatMap Csv.line ∧
      ∀ r ∈ headerRecord :: groups.flatMap exportRecords,
        '\n' ∉ Csv.joined r ∧ '\r' ∉ Csv.joined r
  records : ∀ g ∈ groups, (exportRecords g).length = g.members.length ∧
    ∀ i m, g.members[i]? = some m → (exportRecords g)[i]? = some (exportRecord g i m) ∧
      (exportRecord g i m).length = 12 ∧ (exportRecord g i m)[4]? = some (pathCell m)
  names_read : ∀ g ∈ groups, ∀ m ∈ g.members, readable m.path →
    utf8 (String.ofList (pathCell m)) = m.path
  names_differ : ∀ g ∈ groups, ∀ m ∈ g.members, ∀ g' ∈ groups, ∀ m' ∈ g'.members,
    readable m.path → readable m'.path → m.path ≠ m'.path → pathCell m ≠ pathCell m'
  keep_marked : ∀ g ∈ groups, (∃ m ∈ g.members, m.mark = some .keeper) →
    ∀ i, keptAt g i ↔ ∃ m, g.members[i]? = some m ∧ m.mark = some .keeper
  keep_fallback : ∀ text, writeExport groups = .ok text → ∀ g ∈ groups,
    (¬∃ m ∈ g.members, m.mark = some .keeper) →
      ∃ i m, g.members[i]? = some m ∧ m.mark = none ∧ ∀ j, keptAt g j ↔ j = i
  keep_order : ∀ g ∈ groups, apart g.members → ∀ g' : ExportGroup, g'.members.Perm g.members →
    ∀ m, (∃ i, g'.members[i]? = some m ∧ keptAt g' i) ↔ ∃ i, g.members[i]? = some m ∧ keptAt g i
  never_all : ∀ text, writeExport groups = .ok text → ∀ g ∈ groups, ∃ i, keptAt g i
  never_acted : ∀ g ∈ groups, ∀ i m kind, g.members[i]? = some m → m.mark = some (.act kind) →
    ¬keptAt g i
  refuses : (∃ e, writeExport groups = .error e) ↔
    ∃ g ∈ groups, ∀ m ∈ g.members, m.mark ≠ some .keeper ∧ m.mark ≠ none

theorem writeExport_ok {groups : List ExportGroup} {text : List Char}
    (h : writeExport groups = .ok text) :
    (∀ g ∈ groups, ¬g.hopeless) ∧
      text = (headerRecord :: groups.flatMap exportRecords).flatMap Csv.line := by
  obtain ⟨hgroups, htext⟩ := run_ok.mp h
  refine ⟨hgroups, ?_⟩
  rw [htext, header_line, List.flatMap_cons]

/-- The row that is kept where no member is marked as the keeper. -/
theorem fallback_row {g : ExportGroup} (hopeful : ¬g.hopeless)
    (hno : ¬∃ m ∈ g.members, m.mark = some .keeper) :
    ∃ i m, g.members[i]? = some m ∧ m.mark = none ∧ ∀ j, keptAt g j ↔ j = i := by
  have hmark : g.members.any ExportMember.markedKeeper = false :=
    Bool.eq_false_iff.mpr fun h => hno (any_markedKeeper.mp h)
  cases hfall : fallbackKeeper g.members with
  | none =>
    refine absurd (fun m hm => ⟨fun hk => hno ⟨m, hm, hk⟩, ?_⟩) hopeful
    exact (fallbackKeeper_none hmark).mp hfall m hm
  | some i =>
    obtain ⟨m, hm, hnone, -⟩ := fallbackKeeper_spec hfall
    refine ⟨i, m, hm, hnone, fun j => ?_⟩
    rw [keptAt_iff]
    constructor
    · rintro ⟨m', hm', hkept⟩
      have hj := (keptRow_fallback hmark (List.mem_of_getElem? hm')).mp hkept
      rw [hfall] at hj
      exact (Option.some.inj hj).symm
    · rintro rfl
      exact ⟨m, hm, (keptRow_fallback hmark (List.mem_of_getElem? hm)).mpr hfall⟩

theorem keptAt_marked {g : ExportGroup} (h : ∃ m ∈ g.members, m.mark = some .keeper) (i : Nat) :
    keptAt g i ↔ ∃ m, g.members[i]? = some m ∧ m.mark = some .keeper := by
  rw [keptAt_iff]
  simp only [keptRow_marks (any_markedKeeper.mpr h)]

/-- **The export says what the marks say**: the file is read back as the header and one record for
every member, and the `keep` column names a survivor of every group. -/
theorem exportSays (groups : List ExportGroup) :
    ExportSays (fun path => plainName path ∧ ∃ text, path = utf8 text)
      (fun members => (members.map fun m => pathOrder m.path).Nodup) groups where
  parsed := by
    intro text h
    rw [(writeExport_ok h).2]
    refine Csv.parse_lines fun r hr => ?_
    rcases List.mem_cons.mp hr with rfl | hr
    · simp [headerRecord]
    · obtain ⟨g, -, hr⟩ := List.mem_flatMap.mp hr
      obtain ⟨p, -, rfl⟩ := List.mem_map.mp hr
      simp [exportRecord]
  one_line := by
    intro text h
    refine ⟨(writeExport_ok h).2, fun r hr => ?_⟩
    rcases List.mem_cons.mp hr with rfl | hr
    · decide
    · obtain ⟨g, -, hr⟩ := List.mem_flatMap.mp hr
      obtain ⟨p, -, rfl⟩ := List.mem_map.mp hr
      exact ⟨exportRecord_line g p.2 p.1 (.inl rfl), exportRecord_line g p.2 p.1 (.inr rfl)⟩
  records := by
    intro g _
    refine ⟨by simp [exportRecords], fun i m hm => ⟨?_, rfl, rfl⟩⟩
    rw [exportRecords_get, hm]
    rfl
  names_read := by
    rintro g - m - ⟨hplain, text, htext⟩
    exact pathCell_read hplain htext
  names_differ := by
    rintro g - m - g' - m' - ⟨hplain, text, htext⟩ ⟨hplain', text', htext'⟩ hne heq
    apply hne
    rw [← pathCell_read hplain htext, ← pathCell_read hplain' htext', heq]
  keep_marked := fun g _ h i => keptAt_marked h i
  keep_fallback := fun text h g hg hno => fallback_row ((writeExport_ok h).1 g hg) hno
  keep_order := by
    intro g _ hapart g' hperm m
    have hapart' : (g'.members.map fun m => pathOrder m.path).Nodup :=
      ((hperm.map _).nodup_iff).mpr hapart
    constructor
    · rintro ⟨i, hm, hkept⟩
      obtain ⟨m', hm', hkept⟩ := keptAt_iff.mp hkept
      rw [hm] at hm'
      cases hm'
      obtain ⟨j, hj, hjkept⟩ := kept_perm hperm.symm hapart' hm hkept
      exact ⟨j, hj, keptAt_iff.mpr ⟨m, hj, hjkept⟩⟩
    · rintro ⟨i, hm, hkept⟩
      obtain ⟨m', hm', hkept⟩ := keptAt_iff.mp hkept
      rw [hm] at hm'
      cases hm'
      obtain ⟨j, hj, hjkept⟩ := kept_perm hperm hapart hm hkept
      exact ⟨j, hj, keptAt_iff.mpr ⟨m, hj, hjkept⟩⟩
  never_all := by
    intro text h g hg
    by_cases hmark : ∃ m ∈ g.members, m.mark = some .keeper
    · obtain ⟨m, hm, hk⟩ := hmark
      obtain ⟨i, hi⟩ := List.mem_iff_getElem?.mp hm
      exact ⟨i, (keptAt_marked ⟨m, hm, hk⟩ i).mpr ⟨m, hi, hk⟩⟩
    · obtain ⟨i, -, -, -, honly⟩ := fallback_row ((writeExport_ok h).1 g hg) hmark
      exact ⟨i, (honly i).mpr rfl⟩
  never_acted := by
    intro g _ i m kind hm hact hkept
    obtain ⟨m', hm', hkept⟩ := keptAt_iff.mp hkept
    rw [hm] at hm'
    cases hm'
    rcases keptRow_mark hm hkept with h | h <;> rw [hact] at h <;> cases h
  refuses := by
    constructor
    · rintro ⟨e, he⟩
      by_contra hno
      have hall : ∀ g ∈ groups, ¬g.hopeless := fun g hg h => hno ⟨g, hg, h⟩
      have hok : writeExport groups = .ok _ := run_ok.mpr ⟨hall, rfl⟩
      rw [he] at hok
      cases hok
    · rintro ⟨g, hg, h⟩
      cases hrun : writeExport groups with
      | error e => exact ⟨e, rfl⟩
      | ok text => exact absurd h ((writeExport_ok hrun).1 g hg)

/-- Two pathnames that are no text and are shown alike. -/
def lookalikes : List ExportGroup :=
  [⟨⟨1, 1, 1⟩, "00", [⟨[47, 255], 1, 0, 0, 1, 1, 1, none⟩, ⟨[47, 254], 1, 0, 0, 1, 2, 1, none⟩]⟩]

/-- Two members that are one path, spelled `/a//b` and `/a/b`. -/
def twoSpellings (swapped : Bool) : ExportGroup :=
  let first : ExportMember := ⟨[47, 97, 47, 47, 98], 1, 0, 0, 1, 1, 1, none⟩
  let second : ExportMember := ⟨[47, 97, 47, 98], 1, 0, 0, 1, 1, 1, none⟩
  ⟨⟨1, 1, 1⟩, "00", if swapped then [second, first] else [first, second]⟩

theorem keptAt_twoSpellings (swapped : Bool) (i : Nat) : keptAt (twoSpellings swapped) i ↔ i = 1 := by
  rw [keptAt_iff]
  constructor
  · rintro ⟨m, hm, hkept⟩
    have hbound : i < 2 := by
      have := (List.getElem?_eq_some_iff.mp hm).1
      cases swapped <;> exact this
    have hfall : fallbackKeeper (twoSpellings swapped).members = some 1 := by
      cases swapped <;> decide +kernel
    have hmark : (twoSpellings swapped).members.any ExportMember.markedKeeper = false := by
      cases swapped <;> rfl
    rw [keptRow_fallback hmark (List.mem_of_getElem? hm), hfall] at hkept
    exact (Option.some.inj hkept).symm
  · rintro rfl
    cases swapped
    · exact ⟨_, rfl, by decide +kernel⟩
    · exact ⟨_, rfl, by decide +kernel⟩

/-- Without the condition on the names two of them can have one cell, and without the one on the
members the row that is kept can depend on their order. -/
theorem not_exportSays :
    (¬∀ groups, ExportSays plainName (fun members => (members.map ExportMember.path).Nodup) groups) ∧
      ¬∀ groups, ExportSays (fun path => plainName path ∧ ∃ text, path = utf8 text)
        (fun members => (members.map ExportMember.path).Nodup) groups := by
  constructor
  · intro h
    have hplain : plainName [47, 255] ∧ plainName [47, 254] := by
      unfold plainName
      decide +kernel
    have hsame : lossyUtf8 [47, 255] = lossyUtf8 [47, 254] := by decide
    have hcells := (h lookalikes).names_differ _ List.mem_cons_self
      ⟨[47, 255], 1, 0, 0, 1, 1, 1, none⟩ (by decide) _ List.mem_cons_self
      ⟨[47, 254], 1, 0, 0, 1, 2, 1, none⟩ (by decide) hplain.1 hplain.2 (by decide)
    apply hcells
    unfold pathCell Bytes.display
    rw [hsame]
  · intro h
    have horder := (h [twoSpellings false]).keep_order _ List.mem_cons_self (by decide)
      (twoSpellings true) (List.Perm.swap _ _ _) ⟨[47, 97, 47, 47, 98], 1, 0, 0, 1, 1, 1, none⟩
    obtain ⟨i, hi, hkept⟩ := horder.mp ⟨1, rfl, (keptAt_twoSpellings true 1).mpr rfl⟩
    rw [(keptAt_twoSpellings false i).mp hkept] at hi
    exact absurd hi (by decide)

end DedupCommando
