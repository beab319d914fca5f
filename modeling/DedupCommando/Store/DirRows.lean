import DedupCommando.Browse.Requests
import DedupCommando.Lib.Keyed
import DedupCommando.Store.Publication
import DedupCommando.Store.SignatureForest

/-!
# The stored groups of directories

From the manifest to the rows of `dir_dedup`, by either algorithm (`model/duplicate.rs`,
`state/store.rs`).

* `fileHashStatus` — the manifest as the builders read it.
* `ledgerContext` — what the persisted ledger makes of a directory.
* `buildDirGroups`, `recordDirGroups` — the groups of the whole-subtree builder, written over what
  is there.
* `materializeDirGroups` — the signatures of the streaming builder, written in place of it.
* `keptDirs_filled` — digests that are filled in take no directory away.
* `recordDirGroups_exact` — a row of an earlier state of the manifest is written over.
-/

set_option autoImplicit false

namespace DedupCommando

namespace Signatures

open Browse (DirSigAlgo)
open Sql (Value)

/-! ## What is read -/

/-- A cell read as `Option<Vec<u8>>`. -/
def getOptBlob (v : Value) : Except String (Option Bytes) :=
  match v with
  | .null => .ok none
  | .blob b => .ok (some b)
  | other => .error ("Invalid column type " ++ other.typeof)

/-- One row of `file_hash_status`, with the digest in hexadecimal: bytes of another length than a
digest's are none. -/
def hashStatus (f : FileRow) : Except String ManifestFile :=
  match getText f.path with
  | .error e => .error e
  | .ok raw =>
    match Path.ofText raw with
    | none => .error "a pathname with a NUL byte"
    | some path =>
      match getInteger f.size with
      | .error e => .error e
      | .ok size =>
        match getOptBlob f.hash with
        | .error e => .error e
        | .ok hash =>
          .ok ⟨path, UInt64.ofInt size,
            (hash.filter fun b => decide (b.length = 32)).map Sql.hexText⟩

/-- `file_hash_status` -/
def fileHashStatus : List FileRow → Except String (List ManifestFile)
  | [] => .ok []
  | f :: fs =>
    match hashStatus f with
    | .error e => .error e
    | .ok file =>
      match fileHashStatus fs with
      | .error e => .error e
      | .ok files => .ok (file :: files)

/-- The snapshot of a ledger, and the context that the builders are given for it. -/
def ledgerContext (l : OmissionLedger) : Except String (SnapshotOutcome × SignatureContext) :=
  match l.config with
  | none => .error "the scan's configuration cannot be read"
  | some roots =>
    match h : CompletenessSnapshot.build roots l.roots l.omissions with
    | .error e => .error e
    | .ok (.bounded snap) => .ok (.bounded snap, contextOf (build_built h))
    | .ok (.unavailable why) => .ok (.unavailable why, legacyContext)

/-! ## The groups of the whole-subtree builder -/

/-- `reclaimable_bytes`, saturating. -/
def reclaimableBytes (g : DirGroup) : Nat := min (g.sizePerDir * (g.paths.length - 1)) (2 ^ 64 - 1)

variable (signatureOf : List (Bytes × Bytes) → Bytes)

/-- The group of the directories of one signature; the first of them gives its figures. -/
def groupOfDirs (g : Bytes × List KeptDir) : DirGroup where
  signature := g.1
  paths := (Sql.orderBy KeptDir.path g.2).map fun d => lossyUtf8 d.path.bytes
  fileCount := (g.2.head?.elim 0 KeptDir.count).toNat
  sizePerDir := (g.2.head?.elim 0 KeptDir.total).toNat

/-- The signatures of at least two directories, the most benefit first. `dirs` are the directories
that are kept, as the hash map iterates over them. -/
def dirGroups (dirs : List KeptDir) : List DirGroup :=
  Sql.orderBy (fun g : DirGroup => toLex (OrderDual.toDual (reclaimableBytes g), g.signature))
    (((Grouping.groupByKey (fun d => signatureOf d.entries) dirs).filter fun g =>
      decide (2 ≤ g.2.length)).map groupOfDirs)

/-- `build_dir_groups_in_context`; `iterate` is the order of the hash map. -/
def buildDirGroups (iterate : List KeptDir → List KeptDir) (ctx : SignatureContext)
    (files : List ManifestFile) : Except String (List DirGroup) :=
  match keptDirs ctx files with
  | .error e => .error e
  | .ok dirs => .ok (dirGroups signatureOf (iterate dirs))

/-! ## The rows -/

def DirRow.key (r : DirRow) : Value × Value := (r.signature, r.path)

def groupRowsOf (g : DirGroup) : List DirRow :=
  g.paths.map fun path =>
    ⟨.text g.signature, .text path, .integer g.fileCount, .integer (castI64 g.sizePerDir)⟩

/-- `record_dir_groups`: INSERT OR REPLACE, and nothing is deleted first. -/
def recordDirGroups (groups : List DirGroup) : Tx (List DirRow) AppError Unit := fun dirs =>
  (.ok (), (groups.flatMap groupRowsOf).foldl (Keyed.replace DirRow.key) dirs)

/-- The temporary table, filled as the signatures come. -/
def tmpDirSig : List DirSignature → List DirRow → Except AppError (List DirRow)
  | [], rows => .ok rows
  | s :: rest, rows =>
    let path : Value := .text (lossyUtf8 s.path.bytes)
    if rows.any fun r => decide (r.path = path) then
      .error ⟨"UNIQUE constraint failed: tmp_dir_sig.path"⟩
    else
      tmpDirSig rest (rows ++
        [⟨.text s.signature, path, .integer s.fileCount.toNat, .integer (castI64 s.size.toNat)⟩])

/-- `HAVING COUNT(*) >= 2` -/
def twinRows (rows : List DirRow) : List DirRow :=
  rows.filter fun r => decide (2 ≤ rows.countP fun o => decide (o.signature = r.signature))

/-- `materialize_dir_groups`: the rows of the scan are replaced by those of the producer. -/
def materializeDirGroups (produced : Except String Unit × List DirSignature) :
    Tx (List DirRow) AppError Unit := fun dirs =>
  match tmpDirSig produced.2 [] with
  | .error e => (.error e, dirs)
  | .ok rows =>
    match produced.1 with
    | .error e => (.error ⟨e⟩, dirs)
    | .ok () => (.ok (), twinRows rows)

/-- The groups of directories of a manifest are built and written, by the algorithm of the scan. -/
def storeDirGroups (algo : DirSigAlgo) (iterate : List KeptDir → List KeptDir)
    (ctx : SignatureContext) (files : List ManifestFile) : Tx (List DirRow) AppError Unit :=
  match algo with
  | .old => fun dirs =>
    match buildDirGroups signatureOf iterate ctx files with
    | .error e => (.error ⟨e⟩, dirs)
    | .ok groups => recordDirGroups groups dirs
  | .merkle =>
    let produced := stream ctx signatureOf Walk.start (Sql.orderBy ManifestFile.path files)
    materializeDirGroups (produced.1, produced.2.emitted)

/-! ## A manifest that goes on being hashed -/

/-- The row as it was, or without a digest before and with one now. -/
def FilledIn (f f' : FileRow) : Prop :=
  f' = f ∨ f.hash = .null ∧ ∃ digest, f' = { f with hash := digest, identityVersion := 1 }

/-- The same file, with a digest that stays. -/
structure Later (file file' : ManifestFile) : Prop where
  path : file'.path = file.path
  size : file'.size = file.size
  hash : file.hash = none ∨ file'.hash = file.hash

theorem hashStatus_filled {f f' : FileRow} (h : FilledIn f f') {file' : ManifestFile}
    (hread : hashStatus f' = .ok file') :
    ∃ file, hashStatus f = .ok file ∧ Later file file' := by
  rcases h with rfl | ⟨hnull, digest, rfl⟩
  · exact ⟨file', hread, rfl, rfl, .inr rfl⟩
  · unfold hashStatus at hread ⊢
    split at hread
    · cases hread
    rename_i raw hraw
    split at hread
    · cases hread
    rename_i path hpath
    split at hread
    · cases hread
    rename_i size hsize
    split at hread
    · cases hread
    cases hread
    refine ⟨⟨path, UInt64.ofInt size, none⟩, ?_, rfl, rfl, .inl rfl⟩
    have hnone : getOptBlob f.hash = .ok none := by rw [hnull]; rfl
    simp only at hraw hsize
    rw [hraw]
    simp only [hpath, hsize, hnone]
    rfl

theorem fileHashStatus_filled : ∀ {fs fs' : List FileRow}, List.Forall₂ FilledIn fs fs' →
    ∀ {files' : List ManifestFile}, fileHashStatus fs' = .ok files' →
      ∃ files, fileHashStatus fs = .ok files ∧ List.Forall₂ Later files files'
  | _, _, .nil, files', hread => by
    cases hread
    exact ⟨[], rfl, .nil⟩
  | _, _, .cons hf hfs, files', hread => by
    unfold fileHashStatus at hread
    split at hread
    · cases hread
    rename_i file' hfile'
    split at hread
    · cases hread
    rename_i rest' hrest'
    cases hread
    obtain ⟨file, hfile, hlater⟩ := hashStatus_filled hf hfile'
    obtain ⟨rest, hrest, hlaters⟩ := fileHashStatus_filled hfs hrest'
    refine ⟨file :: rest, ?_, .cons hlater hlaters⟩
    simp only [fileHashStatus, hfile, hrest]

/-- What is complete has not changed since. -/
def Grown (acc acc' : DirAccum) : Prop := acc.incomplete = false → acc' = acc

theorem Grown.add {acc acc' : DirAccum} (h : Grown acc acc') {file file' : ManifestFile}
    (hfile : Later file file') (rel : Path) : Grown (acc.add rel file) (acc'.add rel file') := by
  obtain ⟨hpath, hsize, hhash⟩ := hfile
  intro hcomplete
  unfold DirAccum.add at hcomplete ⊢
  cases hold : file.hash with
  | none => rw [hold] at hcomplete; cases hcomplete
  | some digest =>
    rw [hold] at hcomplete hhash
    have hnew : file'.hash = some digest := hhash.resolve_left (by simp)
    rw [hnew, hsize, h hcomplete]

theorem accountDir_alike {m m' : OrdMap Path DirAccum} (h : m.Alike Grown m')
    {file file' : ManifestFile} (hfile : Later file file') (dir : Path) :
    (accountDir file m dir).Alike Grown (accountDir file' m' dir) := by
  unfold accountDir
  rw [hfile.path]
  cases file.path.stripPrefix dir with
  | none => exact h
  | some rel =>
    refine h.insert dir (Grown.add ?_ hfile rel)
    have hget := h.get? dir
    generalize m.get? dir = a, m'.get? dir = a' at hget
    cases hget with
    | none => exact fun _ => rfl
    | some hacc => exact hacc

theorem foldl_accountDir_alike {file file' : ManifestFile} (hfile : Later file file') :
    ∀ (dirs : List Path) {m m' : OrdMap Path DirAccum}, m.Alike Grown m' →
      (dirs.foldl (accountDir file) m).Alike Grown (dirs.foldl (accountDir file') m')
  | [], _, _, h => h
  | dir :: dirs, _, _, h => foldl_accountDir_alike hfile dirs (accountDir_alike h hfile dir)

theorem byDir_alike (ctx : SignatureContext) : ∀ {files files' : List ManifestFile},
    List.Forall₂ Later files files' → ∀ {m m' w' : OrdMap Path DirAccum}, m.Alike Grown m' →
      byDir ctx m' files' = .ok w' → ∃ w, byDir ctx m files = .ok w ∧ w.Alike Grown w'
  | _, _, .nil, m, m', w', h, hrun => by
    cases hrun
    exact ⟨m, rfl, h⟩
  | file :: _, file' :: _, .cons hfile hfiles, m, m', w', h, hrun => by
    unfold byDir at hrun ⊢
    rw [hfile.path] at hrun
    cases hscope : ctx.scope file.path with
    | outside => rw [hscope] at hrun; cases hrun
    | root r =>
      rw [hscope] at hrun
      exact byDir_alike ctx hfiles (foldl_accountDir_alike hfile _ h) hrun
    | unbounded =>
      rw [hscope] at hrun
      exact byDir_alike ctx hfiles (foldl_accountDir_alike hfile _ h) hrun

/-- **Digests that are filled in take no directory away**: what the builder keeps it keeps, with its
entries and figures. -/
theorem keptDirs_filled {ctx : SignatureContext} {files files' : List ManifestFile}
    (h : List.Forall₂ Later files files') {kept' : List KeptDir}
    (hrun : keptDirs ctx files' = .ok kept') :
    ∃ kept, keptDirs ctx files = .ok kept ∧ kept.Sublist kept' := by
  unfold keptDirs at hrun
  split at hrun
  · cases hrun
  rename_i w' hw'
  cases hrun
  obtain ⟨w, hw, halike⟩ := byDir_alike ctx h OrdMap.Alike.empty hw'
  refine ⟨w.entries.filterMap (keepDir ctx), by simp only [keptDirs, hw], halike.sublist ?_⟩
  intro dir acc acc' d hacc hkeep
  unfold keepDir at hkeep
  split at hkeep
  · cases hkeep
  · rename_i hcomplete
    rw [hacc (by simpa using hcomplete)]
    unfold keepDir
    rw [if_neg hcomplete]
    exact hkeep

/-! ## What a writer leaves -/

section Rows

variable (signatureOf : List (Bytes × Bytes) → Bytes)

/-- The directories of a signature. -/
def dirsOf (dirs : List KeptDir) (signature : Bytes) : List KeptDir :=
  Grouping.under (fun d => signatureOf d.entries) signature dirs

/-- A row stands for a directory that is kept, and that has a twin. -/
def Backed (dirs : List KeptDir) (r : DirRow) : Prop :=
  ∃ d ∈ dirs, DirRow.key r = (.text (signatureOf d.entries), .text (lossyUtf8 d.path.bytes)) ∧
    2 ≤ (dirsOf signatureOf dirs (signatureOf d.entries)).length

variable {signatureOf}

theorem Backed.mono {dirs dirs' : List KeptDir} (h : dirs.Sublist dirs') {r : DirRow}
    (hr : Backed signatureOf dirs r) : Backed signatureOf dirs' r := by
  obtain ⟨d, hd, hkey, htwin⟩ := hr
  exact ⟨d, h.subset hd, hkey, htwin.trans (h.filter _).length_le⟩

theorem Backed.perm {dirs dirs' : List KeptDir} (h : dirs.Perm dirs') {r : DirRow}
    (hr : Backed signatureOf dirs r) : Backed signatureOf dirs' r := by
  obtain ⟨d, hd, hkey, htwin⟩ := hr
  exact ⟨d, h.subset hd, hkey, htwin.trans_eq (h.filter _).length_eq⟩

theorem mem_dirGroups {dirs : List KeptDir} {g : DirGroup} : g ∈ dirGroups signatureOf dirs ↔
    ∃ d ∈ dirs, 2 ≤ (dirsOf signatureOf dirs (signatureOf d.entries)).length ∧
      g = groupOfDirs (signatureOf d.entries, dirsOf signatureOf dirs (signatureOf d.entries)) := by
  unfold dirGroups
  simp only [Sql.mem_orderBy, List.mem_map, List.mem_filter, Grouping.mem_groupByKey,
    decide_eq_true_eq]
  constructor
  · rintro ⟨⟨k, ds⟩, ⟨⟨⟨d, hd, rfl⟩, hds⟩, htwin⟩, rfl⟩
    obtain rfl : ds = dirsOf signatureOf dirs (signatureOf d.entries) := hds
    exact ⟨d, hd, htwin, rfl⟩
  · rintro ⟨d, hd, htwin, rfl⟩
    exact ⟨(signatureOf d.entries, dirsOf signatureOf dirs (signatureOf d.entries)),
      ⟨⟨⟨d, hd, rfl⟩, rfl⟩, htwin⟩, rfl⟩

/-- The rows of all groups: one for each directory that has a twin. -/
theorem mem_groupRows {dirs : List KeptDir} {r : DirRow} :
    r ∈ (dirGroups signatureOf dirs).flatMap groupRowsOf ↔
      ∃ d ∈ dirs, 2 ≤ (dirsOf signatureOf dirs (signatureOf d.entries)).length ∧
        r = ⟨.text (signatureOf d.entries), .text (lossyUtf8 d.path.bytes),
          .integer (groupOfDirs (signatureOf d.entries,
            dirsOf signatureOf dirs (signatureOf d.entries))).fileCount,
          .integer (castI64 (groupOfDirs (signatureOf d.entries,
            dirsOf signatureOf dirs (signatureOf d.entries))).sizePerDir)⟩ := by
  simp only [List.mem_flatMap, mem_dirGroups, groupRowsOf, List.mem_map]
  constructor
  · rintro ⟨g, ⟨d, -, htwin, rfl⟩, path, hpath, rfl⟩
    obtain ⟨d', hd', rfl⟩ := List.mem_map.1 hpath
    rw [Sql.mem_orderBy] at hd'
    obtain ⟨hd', hsame⟩ := Grouping.mem_under.1 hd'
    rw [← hsame] at htwin ⊢
    exact ⟨d', hd', htwin, rfl⟩
  · rintro ⟨d, hd, htwin, rfl⟩
    refine ⟨_, ⟨d, hd, htwin, rfl⟩, lossyUtf8 d.path.bytes, List.mem_map.2 ⟨d, ?_, rfl⟩, rfl⟩
    exact Sql.mem_orderBy.2 (Grouping.mem_under.2 ⟨hd, rfl⟩)

theorem groupRows_one {dirs : List KeptDir} :
    ∀ a ∈ (dirGroups signatureOf dirs).flatMap groupRowsOf,
      ∀ b ∈ (dirGroups signatureOf dirs).flatMap groupRowsOf, DirRow.key a = DirRow.key b → a = b := by
  intro a ha b hb hkey
  obtain ⟨d, -, -, rfl⟩ := mem_groupRows.1 ha
  obtain ⟨d', -, -, rfl⟩ := mem_groupRows.1 hb
  simp only [DirRow.key, Prod.mk.injEq, Value.text.injEq] at hkey
  rw [hkey.1, hkey.2]

theorem backed_of_groupRow {dirs : List KeptDir} {r : DirRow}
    (h : r ∈ (dirGroups signatureOf dirs).flatMap groupRowsOf) : Backed signatureOf dirs r := by
  obtain ⟨d, hd, htwin, rfl⟩ := mem_groupRows.1 h
  exact ⟨d, hd, rfl, htwin⟩

/-- **What is written over rows of the same directories is all that is left.** -/
theorem recordDirGroups_exact {kept rows : List DirRow} {dirs : List KeptDir}
    (hrun : recordDirGroups (dirGroups signatureOf dirs) kept = (.ok (), rows))
    (hkept : ∀ r ∈ kept, Backed signatureOf dirs r) (r : DirRow) :
    r ∈ rows ↔ r ∈ (dirGroups signatureOf dirs).flatMap groupRowsOf := by
  obtain ⟨-, rfl⟩ := Prod.mk.inj hrun
  refine Keyed.foldl_replace_covers DirRow.key groupRows_one fun r hr => ?_
  obtain ⟨d, hd, hkey, htwin⟩ := hkept r hr
  exact ⟨_, mem_groupRows.2 ⟨d, hd, htwin, rfl⟩, hkey.symm⟩

end Rows

end Signatures

end DedupCommando
