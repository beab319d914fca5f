import DedupCommando.Lib.Trim
import DedupCommando.Model.PathKey
import DedupCommando.Store.DirGroupAt

/-!
# Trimming the history of the same roots

`apply_retention`: a scan that completes moves the older scans of its roots to the trash bin, beyond
a number of places.

* `SessionStore` — the scan rows, and the pathnames of every scan's manifest.
* `hasFilesUnder`, `hasFilesUnder_iff` — whether a manifest holds a file at a root or under it.
* `applyRetention` — the listing, the walk over the sessions and the updates.
* `applyRetention_ok` — a run trashes what `Trim.trim` drops.
* `retention_iff` — **the history is trimmed as it should be** exactly when the current scan finds a
  place in it.
-/

set_option autoImplicit false

namespace DedupCommando.Sessions

open Sql (Value)

/-! ## Sessions -/

/-- `ScanStatus` -/
inductive ScanStatus where
  | walking
  | hashing
  | complete
  | completeWithWarnings
  | aborted
  deriving DecidableEq

/-- `ScanStatus::parse` -/
def ScanStatus.parse (text : String) : Option ScanStatus :=
  if text = "walking" then some .walking
  else if text = "hashing" then some .hashing
  else if text = "complete" then some .complete
  else if text = "complete_with_warnings" then some .completeWithWarnings
  else if text = "aborted" then some .aborted
  else none

/-- `is_completed` -/
def ScanStatus.isCompleted : ScanStatus → Bool
  | .complete | .completeWithWarnings => true
  | .walking | .hashing | .aborted => false

/-- A row of `scan`: its configuration gives the roots, or what reading the row is refused with. -/
structure ScanRow where
  id : Int
  trashed : Option Int
  status : String
  config : Except AppError (List Bytes)

/-- The scans, and the pathname cells of every scan's manifest. -/
structure SessionStore where
  scan : List ScanRow
  files : Int → List Value
  distinct : (scan.map ScanRow.id).Nodup

/-- `ResumeInfo` -/
structure ResumeInfo where
  scanId : Int
  status : ScanStatus
  roots : List Bytes
  deriving DecidableEq

/-- The statements of the run, each of which the database can fail. -/
inductive Query where
  | listScans
  | filesUnder (scan : Int) (root : Bytes)
  | anyFile (scan : Int)
  | trash (scan : Int)

/-- The rows that are not in the trash bin, newest first. -/
def SessionStore.active (s : SessionStore) : List ScanRow :=
  Sql.orderBy (fun r : ScanRow => OrderDual.toDual r.id)
    (s.scan.filter fun r => decide (r.trashed.getD 0 = 0))

/-- A row with a status this build does not know is passed over. -/
def readSessions : List ScanRow → Except AppError (List ResumeInfo)
  | [] => .ok []
  | row :: rows =>
    match ScanStatus.parse row.status with
    | none => readSessions rows
    | some status =>
      match row.config with
      | .error e => .error e
      | .ok roots =>
        match readSessions rows with
        | .error e => .error e
        | .ok infos => .ok (⟨row.id, status, roots⟩ :: infos)

/-- `list_scans` -/
def listScans (fault : Query → Option AppError) (s : SessionStore) :
    Except AppError (List ResumeInfo) :=
  match fault .listScans with
  | some e => .error e
  | none => readSessions s.active

/-! ## Files under a root -/

/-- A `PathBuf` as it compares: repeated separators and `.` say nothing, except for a leading `.`. -/
def rootKey (raw : Bytes) : List Bytes :=
  let spoken := fun b : Bytes => decide (b ≠ [] ∧ b ≠ [46])
  if raw.head? = some 47 then [47] :: (raw.splitOn 47).filter spoken
  else if (raw.splitOn 47).head? = some [46] then [46] :: (raw.splitOn 47).filter spoken
  else (raw.splitOn 47).filter spoken

/-- `info.roots == roots` -/
def sameRoots (roots theirs : List Bytes) : Bool := decide (theirs.map rootKey = roots.map rootKey)

/-- `trim_end_matches('/')`, with the separator that the range over the root's files begins with. -/
def trimmed (root : Bytes) : Bytes :=
  let bare := root.rdropWhile fun b => decide (b = 47)
  if bare = [] then [47] else bare

/-- `has_files_under` -/
def hasFilesUnder (files : List Value) (root : Bytes) : Bool :=
  let exact := lossyUtf8 root
  files.any (fun path => Value.same path (.text exact)) ||
    files.any (within (prefixBounds (trimmed exact)))

/-- The pathname that the names under a root are appended to. -/
def folder (root : Bytes) : Bytes := root.rdropWhile (fun b => decide (b = 47)) ++ [47]

/-- A stored pathname is the root or stands under it, as the walk of the root spelled it. -/
def FilesUnder (files : List Value) (root : Bytes) : Prop :=
  ∃ path, Value.text path ∈ files ∧ (path = lossyUtf8 root ∨ folder (lossyUtf8 root) <+: path)

theorem within_text {lo hi path : Bytes} :
    within (lo, hi) (.text path) = true ↔ lo ≤ path ∧ path < hi := by
  unfold within Value.key
  simp [Prod.Lex.toLex_le_toLex, Prod.Lex.toLex_lt_toLex]

theorem within_is_text {lo hi : Bytes} {v : Value} (h : within (lo, hi) v = true) :
    ∃ path, v = .text path := by
  cases v with
  | text path => exact ⟨path, rfl⟩
  | _ => simp [within, Value.key, Prod.Lex.toLex_le_toLex, Prod.Lex.toLex_lt_toLex] at h

/-- The range of a root is what begins with its folder. -/
theorem within_trimmed {root path : Bytes} :
    within (prefixBounds (trimmed root)) (.text path) = true ↔ folder root <+: path := by
  have hstep : ∀ x : Byte, 47 ≤ x → x < 48 → x = 47 := by
    intro x h₁ h₂
    have h₁ : 47 ≤ x.val := h₁
    have h₂ : x.val < 48 := h₂
    exact Fin.ext (by change x.val = 47; omega)
  unfold trimmed prefixBounds folder
  dsimp only
  by_cases hbare : root.rdropWhile (fun b => decide (b = 47)) = []
  · rw [if_pos hbare, if_pos rfl, hbare, within_text]
    exact PathKey.prefix_interval hstep (by decide) [] path
  · -- what is left of the root does not end in a separator
    have hne : root.rdropWhile (fun b => decide (b = 47)) ≠ [47] := by
      intro h
      have hlast := List.rdropWhile_last_not (fun b : Byte => decide (b = 47)) root hbare
      simp [h] at hlast
    rw [if_neg hbare, if_neg hne, within_text]
    exact PathKey.prefix_interval hstep (by decide) _ path

theorem hasFilesUnder_iff {files : List Value} {root : Bytes} :
    hasFilesUnder files root = true ↔ FilesUnder files root := by
  unfold hasFilesUnder FilesUnder
  simp only [Bool.or_eq_true, List.any_eq_true]
  constructor
  · rintro (⟨v, hv, hsame⟩ | ⟨v, hv, hin⟩)
    · exact ⟨_, Value.same_text.mp hsame ▸ hv, .inl rfl⟩
    · obtain ⟨path, rfl⟩ := @within_is_text (prefixBounds (trimmed (lossyUtf8 root))).1 _ _ hin
      exact ⟨path, hv, .inr (within_trimmed.mp hin)⟩
  · rintro ⟨path, hmem, rfl | hunder⟩
    · exact .inl ⟨_, hmem, Value.same_text.mpr rfl⟩
    · exact .inr ⟨_, hmem, within_trimmed.mpr hunder⟩

/-! ## The run -/

/-- What retention did. -/
structure Retention where
  trashed : Nat
  heldFor : Option Bytes
  deriving DecidableEq

/-- What the walk has counted and collected. -/
structure Trimming where
  kept : Nat
  toTrash : List Int
  heldFor : Option Bytes

section Run

variable (fault : Query → Option AppError) (s : SessionStore) (roots : List Bytes) (keep : Nat)
  (current : Int)

def filesUnder (scan : Int) (root : Bytes) : Except AppError Bool :=
  match fault (.filesUnder scan root) with
  | some e => .error e
  | none => .ok (hasFilesUnder (s.files scan) root)

/-- `has_any_file` -/
def anyFile (scan : Int) : Except AppError Bool :=
  match fault (.anyFile scan) with
  | some e => .error e
  | none => .ok !(s.files scan).isEmpty

/-- The places of the roots that the current scan found no file under. -/
def emptyRoots : Nat → List Bytes → Except AppError (List Nat)
  | _, [] => .ok []
  | index, root :: rest =>
    match filesUnder fault s current root with
    | .error e => .error e
    | .ok found =>
      match emptyRoots (index + 1) rest with
      | .error e => .error e
      | .ok empty => .ok (if found then empty else index :: empty)

/-- A root of a session in its own spelling. -/
def theirRoot (info : ResumeInfo) (index : Nat) : Bytes :=
  (info.roots[index]?).getD ((roots[index]?).getD [])

/-- The first of the empty roots that the session holds files under. -/
def heldAt (info : ResumeInfo) : List Nat → Except AppError (Option Nat)
  | [] => .ok none
  | index :: rest =>
    match filesUnder fault s info.scanId (theirRoot roots info index) with
    | .error e => .error e
    | .ok true => .ok (some index)
    | .ok false => heldAt info rest

/-- One session of the walk. -/
def consider (empty : List Nat) (info : ResumeInfo) (t : Trimming) : Except AppError Trimming :=
  if info.scanId = current then .ok { t with kept := t.kept + 1 }
  else
    match heldAt fault s roots info empty with
    | .error e => .error e
    | .ok held =>
      let heldFor := t.heldFor <|> held.map fun index => (roots[index]?).getD []
      let drop : Trimming := { t with toTrash := t.toTrash ++ [info.scanId], heldFor := heldFor }
      match info.status with
      | .complete | .completeWithWarnings =>
        match anyFile fault s info.scanId with
        | .error e => .error e
        | .ok false => .ok drop
        | .ok true =>
          if keep < t.kept + 1 ∧ held = none then .ok { drop with kept := t.kept + 1 }
          else .ok { t with kept := t.kept + 1, heldFor := heldFor }
      | .walking | .hashing | .aborted =>
        if held = none then .ok drop else .ok { t with heldFor := heldFor }

def considerAll (empty : List Nat) : List ResumeInfo → Trimming → Except AppError Trimming
  | [], t => .ok t
  | info :: infos, t =>
    match consider fault s roots keep current empty info t with
    | .error e => .error e
    | .ok t => considerAll empty infos t

end Run

/-- The row of a scan in the trash bin. -/
def ScanRow.trash (scan : Int) (row : ScanRow) : ScanRow :=
  if row.id = scan then { row with trashed := some 1 } else row

theorem ids_trash (scan : Int) (rows : List ScanRow) :
    (rows.map (ScanRow.trash scan)).map ScanRow.id = rows.map ScanRow.id := by
  rw [List.map_map]
  apply List.map_congr_left
  intro row _
  change (ScanRow.trash scan row).id = row.id
  unfold ScanRow.trash
  split <;> rfl

/-- `trash_scan` -/
def SessionStore.trashScan (s : SessionStore) (scan : Int) : SessionStore where
  scan := s.scan.map (ScanRow.trash scan)
  files := s.files
  distinct := by rw [ids_trash]; exact s.distinct

/-- The updates, one by one. -/
def trashAll (fault : Query → Option AppError) : List Int → Tx SessionStore AppError Unit
  | [], s => (.ok (), s)
  | scan :: scans, s =>
    match fault (.trash scan) with
    | some e => (.error e, s)
    | none => trashAll fault scans (s.trashScan scan)

/-- `apply_retention` -/
def applyRetention (fault : Query → Option AppError) (roots : List Bytes) (keep : Nat)
    (current : Int) : Tx SessionStore AppError Retention := fun s =>
  match listScans fault s with
  | .error e => (.error e, s)
  | .ok infos =>
    let scans := infos.filter fun info => sameRoots roots info.roots
    match emptyRoots fault s current 0 roots with
    | .error e => (.error e, s)
    | .ok empty =>
      match considerAll fault s roots keep current empty scans ⟨0, [], none⟩ with
      | .error e => (.error e, s)
      | .ok t =>
        match trashAll fault t.toTrash s with
        | (.error e, s) => (.error e, s)
        | (.ok (), s) => (.ok ⟨t.toTrash.length, t.heldFor⟩, s)

/-! ## What the run drops -/

section Pure

variable (s : SessionStore) (roots : List Bytes) (keep : Nat) (current : Int)

/-- A session holds files under a root that the current scan found no file under. -/
def Held (info : ResumeInfo) : Prop :=
  ∃ index, ∃ h : index < roots.length,
    ¬FilesUnder (s.files current) roots[index] ∧
      FilesUnder (s.files info.scanId) (theirRoot roots info index)

def held (info : ResumeInfo) : Bool :=
  (List.range roots.length).any fun index =>
    !hasFilesUnder (s.files current) ((roots[index]?).getD []) &&
      hasFilesUnder (s.files info.scanId) (theirRoot roots info index)

theorem held_iff {info : ResumeInfo} : held s roots current info = true ↔ Held s roots current info := by
  unfold held Held
  simp only [List.any_eq_true, List.mem_range, Bool.and_eq_true, Bool.not_eq_true']
  constructor
  · rintro ⟨index, h, hempty, hunder⟩
    rw [List.getElem?_eq_getElem h, Option.getD_some] at hempty
    refine ⟨index, h, fun hfiles => ?_, hasFilesUnder_iff.mp hunder⟩
    rw [hasFilesUnder_iff.mpr hfiles] at hempty
    cases hempty
  · rintro ⟨index, h, hempty, hunder⟩
    refine ⟨index, h, ?_, hasFilesUnder_iff.mpr hunder⟩
    rw [List.getElem?_eq_getElem h, Option.getD_some]
    exact Bool.eq_false_iff.mpr fun hfound => hempty (hasFilesUnder_iff.mp hfound)

/-- A completed session that found a file. -/
def full (info : ResumeInfo) : Bool := info.status.isCompleted && !(s.files info.scanId).isEmpty

/-- The sessions that take a place in the history. -/
def takesPlace (info : ResumeInfo) : Bool := decide (info.scanId = current) || full s info

/-- What is dropped wherever it stands: what is not completed, unless it is held, and what found no
    file. -/
def stale (info : ResumeInfo) : Bool := info.status.isCompleted || !held s roots current info

/-- What is never dropped. -/
def spared (info : ResumeInfo) : Bool := decide (info.scanId = current) || held s roots current info

variable {s roots keep current}

theorem filesUnder_ok {fault : Query → Option AppError} {scan : Int} {root : Bytes} {found : Bool}
    (h : filesUnder fault s scan root = .ok found) : found = hasFilesUnder (s.files scan) root := by
  unfold filesUnder at h
  split at h
  · cases h
  · cases h
    rfl

theorem emptyRoots_ok {fault : Query → Option AppError} : ∀ {rest : List Bytes} {index : Nat}
    {empty : List Nat}, emptyRoots fault s current index rest = .ok empty →
      empty = (List.range' index rest.length).filter fun i =>
        !hasFilesUnder (s.files current) ((rest[i - index]?).getD [])
  | [], index, empty, h => by
    cases h
    rfl
  | root :: rest, index, empty, h => by
    unfold emptyRoots at h
    split at h
    · cases h
    rename_i found hfound
    split at h
    · cases h
    rename_i tail htail
    cases h
    have hrest : (List.range' (index + 1) rest.length).filter (fun i =>
          !hasFilesUnder (s.files current) (((root :: rest)[i - index]?).getD [])) = tail := by
      rw [emptyRoots_ok htail]
      apply List.filter_congr
      intro i hi
      have hi := (List.mem_range'_1.mp hi).1
      rw [show i - index = (i - (index + 1)) + 1 by omega, List.getElem?_cons_succ]
    rw [List.length_cons, List.range'_succ, List.filter_cons, hrest, Nat.sub_self,
      List.getElem?_cons_zero, Option.getD_some, ← filesUnder_ok hfound]
    cases found <;> rfl

theorem heldAt_ok {fault : Query → Option AppError} {info : ResumeInfo} : ∀ {empty : List Nat}
    {at? : Option Nat}, heldAt fault s roots info empty = .ok at? →
      (at? = none ↔ empty.any (fun index =>
        hasFilesUnder (s.files info.scanId) (theirRoot roots info index)) = false)
  | [], at?, h => by
    cases h
    simp
  | index :: rest, at?, h => by
    unfold heldAt at h
    split at h
    · cases h
    · rename_i hfound
      cases h
      simp [← filesUnder_ok hfound]
    · rename_i hfound
      rw [heldAt_ok h, List.any_cons, ← filesUnder_ok hfound, Bool.false_or]

/-- Where no statement fails, the first empty root tells whether the session is held. -/
theorem heldAt_none {fault : Query → Option AppError} {info : ResumeInfo} {empty : List Nat}
    {at? : Option Nat} (hempty : emptyRoots fault s current 0 roots = .ok empty)
    (h : heldAt fault s roots info empty = .ok at?) :
    at? = none ↔ held s roots current info = false := by
  rw [heldAt_ok h, emptyRoots_ok hempty, List.any_filter, List.range_eq_range'.symm]
  rfl

/-- What one session adds to the walk. -/
theorem consider_ok {fault : Query → Option AppError} {empty : List Nat} {info : ResumeInfo}
    {t t' : Trimming} (hempty : emptyRoots fault s current 0 roots = .ok empty)
    (h : consider fault s roots keep current empty info t = .ok t') :
    t'.kept = Trim.takes (takesPlace s current) t.kept info ∧
      t'.toTrash = t.toTrash ++ (if Trim.drops keep (takesPlace s current) (spared s roots current)
        (stale s roots current) t.kept info then [info] else []).map ResumeInfo.scanId := by
  unfold consider at h
  unfold Trim.takes Trim.drops takesPlace spared stale full
  by_cases hcur : info.scanId = current
  · rw [if_pos hcur] at h
    cases h
    simp [hcur]
  · rw [if_neg hcur] at h
    split at h
    · cases h
    rename_i at? hat
    have hnone := heldAt_none hempty hat
    have hany : ∀ {found}, anyFile fault s info.scanId = .ok found →
        (s.files info.scanId).isEmpty = !found := by
      intro found h
      unfold anyFile at h
      split at h
      · cases h
      · cases h
        simp
    simp only [hcur, decide_false, Bool.false_or]
    dsimp only at h
    by_cases hheld : held s roots current info = true
    · have hat : at? ≠ none := fun hn => by
        rw [hnone.mp hn] at hheld
        cases hheld
      simp only [hheld, hat, and_false, if_false] at h ⊢
      cases hs : info.status with
      | walking | hashing | aborted =>
        rw [hs] at h
        cases h
        simp [ScanStatus.isCompleted]
      | complete | completeWithWarnings =>
        rw [hs] at h
        dsimp only at h
        split at h
        · cases h
        · rename_i hfound
          cases h
          simp [ScanStatus.isCompleted, hany hfound]
        · rename_i hfound
          cases h
          simp [ScanStatus.isCompleted, hany hfound]
    · rw [Bool.not_eq_true] at hheld
      simp only [hheld, hnone.mpr hheld, and_true, if_true] at h ⊢
      cases hs : info.status with
      | walking | hashing | aborted =>
        rw [hs] at h
        cases h
        simp [ScanStatus.isCompleted]
      | complete | completeWithWarnings =>
        rw [hs] at h
        dsimp only at h
        split at h
        · cases h
        · rename_i hfound
          cases h
          simp [ScanStatus.isCompleted, hany hfound]
        · rename_i hfound
          split at h
          · rename_i hlimit
            cases h
            simp [ScanStatus.isCompleted, hany hfound, hlimit]
          · rename_i hlimit
            cases h
            simp [ScanStatus.isCompleted, hany hfound, hlimit]

/-- **The walk collects what a trimmed list drops.** -/
theorem considerAll_ok {fault : Query → Option AppError} {empty : List Nat}
    (hempty : emptyRoots fault s current 0 roots = .ok empty) :
    ∀ {infos : List ResumeInfo} {t t' : Trimming},
      considerAll fault s roots keep current empty infos t = .ok t' →
      t'.toTrash = t.toTrash ++ (Trim.trim keep (takesPlace s current) (spared s roots current)
        (stale s roots current) t.kept infos).map ResumeInfo.scanId
  | [], t, t', h => by
    cases h
    simp [Trim.trim]
  | info :: infos, t, t', h => by
    unfold considerAll at h
    split at h
    · cases h
    rename_i t₁ hstep
    obtain ⟨hkept, htrash⟩ := consider_ok hempty hstep
    rw [considerAll_ok hempty h, Trim.trim_cons, List.map_append, hkept, htrash, List.append_assoc]

end Pure

/-! ## What the updates change -/

theorem mem_active {s : SessionStore} {id : Int} :
    id ∈ s.active.map ScanRow.id ↔ ∃ row ∈ s.scan, row.id = id ∧ row.trashed.getD 0 = 0 := by
  simp only [SessionStore.active, List.mem_map, Sql.mem_orderBy, List.mem_filter, decide_eq_true_eq]
  constructor
  · rintro ⟨row, ⟨hrow, hzero⟩, hid⟩
    exact ⟨row, hrow, hid, hzero⟩
  · rintro ⟨row, hrow, hid, hzero⟩
    exact ⟨row, ⟨hrow, hzero⟩, hid⟩

theorem mem_active_trashScan {s : SessionStore} {scan id : Int} :
    id ∈ (s.trashScan scan).active.map ScanRow.id ↔ id ∈ s.active.map ScanRow.id ∧ id ≠ scan := by
  rw [mem_active, mem_active]
  constructor
  · rintro ⟨row', hrow', hid, hzero⟩
    obtain ⟨row, hrow, rfl⟩ := List.mem_map.mp hrow'
    unfold ScanRow.trash at hid hzero
    by_cases h : row.id = scan
    · rw [if_pos h] at hzero
      cases hzero
    · rw [if_neg h] at hid hzero
      exact ⟨⟨row, hrow, hid, hzero⟩, hid ▸ h⟩
  · rintro ⟨⟨row, hrow, rfl, hzero⟩, hne⟩
    refine ⟨ScanRow.trash scan row, List.mem_map_of_mem hrow, ?_⟩
    unfold ScanRow.trash
    rw [if_neg hne]
    exact ⟨rfl, hzero⟩

/-- The scan was listed and is not any more. -/
def Trashed (s s' : SessionStore) (id : Int) : Prop :=
  id ∈ s.active.map ScanRow.id ∧ id ∉ s'.active.map ScanRow.id

/-- Only the given scans leave the list, and all of them if no update fails. -/
theorem trashAll_spec {fault : Query → Option AppError} : ∀ {scans : List Int} {s s' : SessionStore}
    {result : Except AppError Unit}, trashAll fault scans s = (result, s') →
      s'.files = s.files ∧ (∀ id, Trashed s s' id → id ∈ scans) ∧
        (result = .ok () → ∀ id ∈ scans, id ∉ s'.active.map ScanRow.id)
  | [], s, s', result, h => by
    cases h
    exact ⟨rfl, fun id hid => absurd hid.1 hid.2, by simp⟩
  | scan :: scans, s, s', result, h => by
    unfold trashAll at h
    split at h
    · rename_i e he
      cases h
      exact ⟨rfl, fun id hid => absurd hid.1 hid.2, fun hok => by cases hok⟩
    · obtain ⟨hfiles, honly, hall⟩ := trashAll_spec h
      have hgone : ∀ {scans : List Int} {s s' : SessionStore} {result : Except AppError Unit},
          trashAll fault scans s = (result, s') → ∀ id, id ∉ s.active.map ScanRow.id →
            id ∉ s'.active.map ScanRow.id := by
        intro scans
        induction scans with
        | nil =>
          intro s s' result h id hid
          cases h
          exact hid
        | cons scan scans ih =>
          intro s s' result h id hid
          unfold trashAll at h
          split at h
          · cases h
            exact hid
          · exact ih h id fun hin => hid (mem_active_trashScan.mp hin).1
      refine ⟨hfiles, fun id hid => ?_, fun hok id hid => ?_⟩
      · by_cases hscan : id = scan
        · exact hscan ▸ List.mem_cons_self
        · exact List.mem_cons_of_mem _
            (honly id ⟨mem_active_trashScan.mpr ⟨hid.1, hscan⟩, hid.2⟩)
      · rcases List.mem_cons.mp hid with rfl | hid
        · exact hgone h _ fun hin => (mem_active_trashScan.mp hin).2 rfl
        · exact hall hok id hid

/-! ## The sessions of the same roots -/

/-- The listed sessions of the same roots. -/
def sessionsOf (roots : List Bytes) (infos : List ResumeInfo) : List ResumeInfo :=
  infos.filter fun info => sameRoots roots info.roots

theorem readSessions_ids : ∀ {rows : List ScanRow} {infos : List ResumeInfo},
    readSessions rows = .ok infos → (infos.map ResumeInfo.scanId).Sublist (rows.map ScanRow.id)
  | [], infos, h => by
    cases h
    exact List.Sublist.slnil
  | row :: rows, infos, h => by
    unfold readSessions at h
    split at h
    · exact (readSessions_ids h).cons _
    · split at h
      · cases h
      · split at h
        · cases h
        · rename_i rest hrest
          cases h
          exact (readSessions_ids hrest).cons_cons _

theorem active_sorted (s : SessionStore) : s.active.Pairwise fun a b => b.id < a.id := by
  have hle := Sql.orderBy_sorted (fun r : ScanRow => OrderDual.toDual r.id)
    (s.scan.filter fun r => decide (r.trashed.getD 0 = 0))
  have hids : (s.active.map ScanRow.id).Nodup := by
    have hperm := (Sql.orderBy_perm (fun r : ScanRow => OrderDual.toDual r.id)
      (s.scan.filter fun r => decide (r.trashed.getD 0 = 0))).map ScanRow.id
    exact hperm.nodup_iff.mpr (s.distinct.sublist (List.filter_sublist.map _))
  have hne := List.pairwise_map.mp hids
  exact hle.imp₂ (fun a b h hne => lt_of_le_of_ne (OrderDual.toDual_le_toDual.mp h) (Ne.symm hne)) hne

/-- The sessions are listed newest first. -/
theorem sessions_sorted {fault : Query → Option AppError} {s : SessionStore} {infos : List ResumeInfo}
    (h : listScans fault s = .ok infos) (roots : List Bytes) :
    (sessionsOf roots infos).Pairwise fun a b => b.scanId < a.scanId := by
  unfold listScans at h
  split at h
  · cases h
  · have hids : (s.active.map ScanRow.id).Pairwise fun a b => b < a :=
      List.pairwise_map.mpr (active_sorted s)
    exact (List.pairwise_map.mp (hids.sublist (readSessions_ids h))).sublist List.filter_sublist

theorem mem_active_of_session {fault : Query → Option AppError} {s : SessionStore}
    {infos : List ResumeInfo} (h : listScans fault s = .ok infos) {roots : List Bytes}
    {info : ResumeInfo} (hinfo : info ∈ sessionsOf roots infos) :
    info.scanId ∈ s.active.map ScanRow.id := by
  unfold listScans at h
  split at h
  · cases h
  · exact (readSessions_ids h).subset (List.mem_map_of_mem (List.mem_filter.mp hinfo).1)

/-- What a run that reached its updates made of the sessions. -/
theorem applyRetention_spec {fault : Query → Option AppError} {roots : List Bytes} {keep : Nat}
    {current : Int} {s s' : SessionStore} {result : Except AppError Retention}
    (h : applyRetention fault roots keep current s = (result, s')) :
    (s' = s ∧ result.isOk = false) ∨ ∃ infos, listScans fault s = .ok infos ∧
      (∀ id, Trashed s s' id → id ∈ (Trim.trim keep (takesPlace s current) (spared s roots current)
        (stale s roots current) 0 (sessionsOf roots infos)).map ResumeInfo.scanId) ∧
      (result.isOk = true → ∀ id ∈ (Trim.trim keep (takesPlace s current) (spared s roots current)
        (stale s roots current) 0 (sessionsOf roots infos)).map ResumeInfo.scanId,
          id ∉ s'.active.map ScanRow.id) := by
  unfold applyRetention at h
  split at h
  · cases h
    exact .inl ⟨rfl, rfl⟩
  rename_i infos hinfos
  dsimp only at h
  split at h
  · cases h
    exact .inl ⟨rfl, rfl⟩
  rename_i empty hempty
  split at h
  · cases h
    exact .inl ⟨rfl, rfl⟩
  rename_i t ht
  have htrash := considerAll_ok hempty ht
  rw [List.nil_append] at htrash
  refine .inr ⟨infos, hinfos, ?_⟩
  change t.toTrash = (Trim.trim keep (takesPlace s current) (spared s roots current)
    (stale s roots current) 0 (sessionsOf roots infos)).map ResumeInfo.scanId at htrash
  rw [← htrash]
  split at h
  · rename_i e s₁ hall
    cases h
    exact ⟨(trashAll_spec hall).2.1, fun hok => by cases hok⟩
  · rename_i s₁ hall
    cases h
    exact ⟨(trashAll_spec hall).2.1, fun _ => (trashAll_spec hall).2.2 rfl⟩

/-! ## The history that stays -/

section KeptHistory

variable (s s' : SessionStore) (roots : List Bytes) (keep : Nat) (current : Int)
  (sessions : List ResumeInfo)

/-- The session is listed behind the run. -/
def stays (info : ResumeInfo) : Bool := decide (info.scanId ∈ s'.active.map ScanRow.id)

/-- What a run owes the sessions of its roots. -/
structure Retains : Prop where
  /-- Only sessions of these roots go, never the current one and never one that is held. -/
  theirs : ∀ id, Trashed s s' id →
    ∃ info ∈ sessions, info.scanId = id ∧ id ≠ current ∧ ¬Held s roots current info
  /-- Among the others that are completed and found a file, the oldest go first. -/
  newest : ∀ newer ∈ sessions, ∀ older ∈ sessions, newer.scanId ≠ current → older.scanId ≠ current →
    full s newer = true → full s older = true → ¬Held s roots current newer →
    ¬Held s roots current older → older.scanId < newer.scanId → Trashed s s' newer.scanId →
    Trashed s s' older.scanId
  /-- What is unfinished, aborted or found no file goes, unless it is held. -/
  cleared : ∀ info ∈ sessions, info.scanId ≠ current → full s info = false →
    ¬Held s roots current info → Trashed s s' info.scanId
  /-- What stays without being held fits the limit, the current scan included. -/
  fits : (sessions.filter fun info => stays s' info &&
    (decide (info.scanId = current) || (full s info && !held s roots current info))).length ≤ max keep 1

/-- The current scan is one of the newest `keep` that are completed and found a file, or one of
    these is held. -/
def FindsPlace : Prop :=
  keep = 0 ∨
    (∀ info ∈ (sessions.filter (takesPlace s current)).drop keep, info.scanId ≠ current) ∨
    ∃ info ∈ (sessions.filter (takesPlace s current)).take keep,
      info.scanId ≠ current ∧ Held s roots current info

end KeptHistory

section Proof

variable {s s' : SessionStore} {roots : List Bytes} {keep : Nat} {current : Int}
  {sessions : List ResumeInfo}

theorem Held.files_ne_nil {info : ResumeInfo} (h : Held s roots current info) :
    s.files info.scanId ≠ [] := by
  obtain ⟨-, -, -, path, hmem, -⟩ := h
  exact List.ne_nil_of_mem hmem

/-- What is dropped is neither the current scan nor held. -/
theorem not_spared_of_trim (hnodup : sessions.Nodup) {info : ResumeInfo}
    (h : info ∈ Trim.trim keep (takesPlace s current) (spared s roots current) (stale s roots current)
      0 sessions) : info.scanId ≠ current ∧ ¬Held s roots current info := by
  have hin := (Trim.trim_sublist _ _).subset h
  cases hplace : takesPlace s current info with
  | true =>
    have hspared := ((Trim.mem_trim hnodup hin hplace).mp h).2
    unfold spared at hspared
    rw [Bool.or_eq_false_iff, decide_eq_false_iff_not] at hspared
    exact ⟨hspared.1, fun hheld => by rw [(held_iff s roots current).mpr hheld] at hspared; cases hspared.2⟩
  | false =>
    have hstale := (Trim.mem_trim_stale hin hplace).mp h
    unfold takesPlace at hplace
    rw [Bool.or_eq_false_iff, decide_eq_false_iff_not] at hplace
    refine ⟨hplace.1, fun hheld => ?_⟩
    unfold stale at hstale
    rw [(held_iff s roots current).mpr hheld, Bool.not_true, Bool.or_false] at hstale
    have hfull := hplace.2
    unfold full at hfull
    rw [hstale, Bool.true_and, Bool.not_eq_false', List.isEmpty_iff] at hfull
    exact hheld.files_ne_nil hfull

/-- The sessions that stay, counted over the places. -/
theorem length_stays (hnodup : sessions.Nodup)
    (htrash : ∀ info ∈ sessions, stays s' info = false ↔
      info ∈ Trim.trim keep (takesPlace s current) (spared s roots current) (stale s roots current) 0
        sessions) :
    (sessions.filter fun info => stays s' info &&
      (decide (info.scanId = current) || (full s info && !held s roots current info))).length =
    Trim.staying keep (fun info => decide (info.scanId = current)) (held s roots current)
      (sessions.filter (takesPlace s current)) := by
  have hplaces : (sessions.filter (takesPlace s current)).Nodup := hnodup.filter _
  have hdisjoint := (List.nodup_append.mp
    ((List.take_append_drop keep (sessions.filter (takesPlace s current))).symm ▸ hplaces)).2.2
  have hsub : sessions.filter (fun info => stays s' info &&
        (decide (info.scanId = current) || (full s info && !held s roots current info))) =
      (sessions.filter (takesPlace s current)).filter fun info => stays s' info &&
        (decide (info.scanId = current) || (full s info && !held s roots current info)) := by
    rw [List.filter_filter]
    apply List.filter_congr
    intro info _
    unfold takesPlace
    cases decide (info.scanId = current) <;> cases full s info <;> simp
  rw [hsub]
  conv_lhs => rw [← List.take_append_drop keep (sessions.filter (takesPlace s current))]
  rw [List.filter_append, List.length_append]
  unfold Trim.staying
  have hplace : ∀ info ∈ sessions.filter (takesPlace s current), info ∈ sessions ∧
      takesPlace s current info = true := fun info h => List.mem_filter.mp h
  congr 1
  · -- in front of the limit everything stays
    congr 1
    apply List.filter_congr
    intro info hinfo
    obtain ⟨hin, hp⟩ := hplace info (List.take_subset _ _ hinfo)
    have hstays : stays s' info = true := by
      rw [← Bool.not_eq_false, htrash info hin, Trim.mem_trim hnodup hin hp]
      exact fun h => hdisjoint info hinfo info h.1 rfl
    rw [hstays, Bool.true_and]
    unfold takesPlace at hp
    dsimp only
    cases hc : decide (info.scanId = current) with
    | true => rfl
    | false =>
      rw [hc, Bool.false_or] at hp
      rw [hp, Bool.true_and]
  · -- beyond it only what is spared
    congr 1
    apply List.filter_congr
    intro info hinfo
    obtain ⟨hin, hp⟩ := hplace info (List.drop_subset _ _ hinfo)
    have hstays : stays s' info = spared s roots current info := by
      have h : stays s' info = false ↔ spared s roots current info = false := by
        rw [htrash info hin, Trim.mem_trim hnodup hin hp]
        exact and_iff_right hinfo
      cases hs : spared s roots current info with
      | true =>
        rw [hs] at h
        simpa using h
      | false => exact h.mpr hs
    rw [hstays]
    unfold spared
    cases decide (info.scanId = current) <;> cases held s roots current info <;> simp

end Proof

/-- **The history is trimmed as it should be**, if and only if the current scan finds a place in
    it. -/
theorem retention_iff {fault : Query → Option AppError} {roots : List Bytes} {keep : Nat}
    {current : Int} {s s' : SessionStore} {r : Retention}
    (h : applyRetention fault roots keep current s = (.ok r, s')) :
    ∃ infos, listScans fault s = .ok infos ∧
      (Retains s s' roots keep current (sessionsOf roots infos) ↔
        FindsPlace s roots keep current (sessionsOf roots infos)) := by
  obtain ⟨-, hno⟩ | ⟨infos, hinfos, honly, hall⟩ := applyRetention_spec h
  · cases hno
  refine ⟨infos, hinfos, ?_⟩
  have hall := hall rfl
  have hsorted := sessions_sorted hinfos roots
  have hactive := fun info => @mem_active_of_session _ _ _ hinfos roots info
  generalize sessionsOf roots infos = sessions at honly hall hsorted hactive ⊢
  have hnodup : sessions.Nodup := hsorted.imp fun h heq => absurd (heq ▸ h) (lt_irrefl _)
  have hunique : ∀ a ∈ sessions, ∀ b ∈ sessions, a.scanId = b.scanId → a = b := by
    have hids : (sessions.map ResumeInfo.scanId).Nodup :=
      List.pairwise_map.mpr (hsorted.imp fun h => (ne_of_lt h).symm)
    exact fun a ha b hb => List.inj_on_of_nodup_map hids ha hb
  -- a session leaves the list exactly when the trimmed list drops it
  have htrashed : ∀ info ∈ sessions, Trashed s s' info.scanId ↔
      info ∈ Trim.trim keep (takesPlace s current) (spared s roots current) (stale s roots current) 0
        sessions := by
    intro info hinfo
    constructor
    · intro ht
      obtain ⟨other, hother, heq⟩ := List.mem_map.mp (honly _ ht)
      rwa [hunique other ((Trim.trim_sublist _ _).subset hother) info hinfo heq] at hother
    · exact fun ht => ⟨hactive info hinfo, hall _ (List.mem_map_of_mem ht)⟩
  have hcount := length_stays hnodup fun info hinfo => by
    rw [← htrashed info hinfo]
    unfold stays Trashed
    rw [decide_eq_false_iff_not]
    exact (and_iff_right (hactive info hinfo)).symm
  have hplaces : ∀ info ∈ sessions, info.scanId ≠ current → full s info = true →
      ¬Held s roots current info → (Trashed s s' info.scanId ↔
        info ∈ (sessions.filter (takesPlace s current)).drop keep) := by
    intro info hinfo hcur hfull hheld
    rw [htrashed info hinfo, Trim.mem_trim hnodup hinfo (by simp [takesPlace, hfull])]
    apply and_iff_left
    unfold spared
    rw [Bool.or_eq_false_iff, decide_eq_false_iff_not, Bool.eq_false_iff, ne_eq, held_iff]
    exact ⟨hcur, hheld⟩
  have hfits : Retains s s' roots keep current sessions ↔
      Trim.staying keep (fun info => decide (info.scanId = current)) (held s roots current)
        (sessions.filter (takesPlace s current)) ≤ max keep 1 := by
    rw [← hcount]
    refine ⟨Retains.fits, fun hfits => ⟨fun id hid => ?_, ?_, ?_, hfits⟩⟩
    · obtain ⟨info, hinfo, rfl⟩ := List.mem_map.mp (honly id hid)
      obtain ⟨hcur, hheld⟩ := not_spared_of_trim hnodup hinfo
      exact ⟨info, (Trim.trim_sublist _ _).subset hinfo, rfl, hcur, hheld⟩
    · intro newer hnewer older holder hnc hoc hnf hof hnh hoh hage hnt
      rw [hplaces older holder hoc hof hoh]
      exact Trim.trim_older (hsorted.filter _) ((hplaces newer hnewer hnc hnf hnh).mp hnt)
        (List.mem_filter.mpr ⟨holder, by simp [takesPlace, hof]⟩) hage.le
    · intro info hinfo hcur hempty hheld
      have hplace : takesPlace s current info = false := by simp [takesPlace, hcur, hempty]
      rw [htrashed info hinfo, Trim.mem_trim_stale hinfo hplace]
      unfold stale
      rw [Bool.eq_false_iff.mpr fun hh => hheld ((held_iff s roots current).mp hh)]
      simp
  rw [hfits, Trim.staying_le_iff (hnodup.filter _) fun a ha b hb hca hcb => by
    apply hunique a (List.mem_filter.mp ha).1 b (List.mem_filter.mp hb).1
    rw [of_decide_eq_true hca, of_decide_eq_true hcb]]
  unfold FindsPlace
  simp only [decide_eq_false_iff_not, held_iff, ne_eq]

/-! ## Two nights -/

def night (id : Int) : ScanRow := ⟨id, none, "complete", .ok [[47, 120]]⟩

/-- Two completed scans of one root, with one file each. -/
def twoNights : SessionStore where
  scan := [night 1, night 2]
  files := fun _ => [.text [47, 120, 47, 97]]
  distinct := by decide

def nights : List ResumeInfo := [⟨2, .complete, [[47, 120]]⟩, ⟨1, .complete, [[47, 120]]⟩]

theorem listScans_twoNights : listScans (fun _ => none) twoNights = .ok nights := rfl

/-- The newer scan completes and takes the only place. -/
theorem retention_iff_newer :
    Retains twoNights (applyRetention (fun _ => none) [[47, 120]] 1 2 twoNights).2 [[47, 120]] 1 2
      nights := by
  obtain ⟨infos, hinfos, hiff⟩ := retention_iff
    (show applyRetention (fun _ => none) [[47, 120]] 1 2 twoNights =
      (.ok ⟨1, none⟩, (applyRetention (fun _ => none) [[47, 120]] 1 2 twoNights).2) from rfl)
  cases listScans_twoNights.symm.trans hinfos
  exact hiff.mpr (.inr (.inl (by decide)))

/-- The older scan completes, as a resumed one does, behind a newer one: both stay in one place. -/
theorem not_retains :
    ¬∀ (fault : Query → Option AppError) (s s' : SessionStore) (roots : List Bytes) (keep : Nat)
      (current : Int) (r : Retention) (infos : List ResumeInfo),
      applyRetention fault roots keep current s = (.ok r, s') → listScans fault s = .ok infos →
        Retains s s' roots keep current (sessionsOf roots infos) := by
  intro h
  have hfits := (h (fun _ => none) twoNights _ [[47, 120]] 1 1 ⟨0, none⟩ nights rfl
    listScans_twoNights).fits
  exact absurd hfits (by decide)

end DedupCommando.Sessions
