import DedupCommando.Pipeline.Run
import DedupCommando.Pipeline.WalkGuard
import DedupCommando.Store.Generations
import DedupCommando.Store.Provenance
import DedupCommando.Store.ScanReclaim

/-!
# A scan that is cut anywhere

A run commits its walk, its digests, its groups and its status one after the other, and the next run
decides from the status and the ledger alone what to do again.

* `WholeWalk`, `HoldsWalk` — one walk that came to its end, and a scan with its rows and its ledger.
* `DirsWithin`, `DirsExact` — the stored groups of directories while a scan is being hashed, and
  behind it.
* `Sound` — what every scan keeps between two transactions.
* `firstRun_sound`, `resume_sound` — however a run is cut.
* `crash_consistency` — **a scan that is complete is that of one walk.**
-/

set_option autoImplicit false

namespace DedupCommando

namespace Pipeline

open Browse (DirSigAlgo)
open OmissionLedger (commitOmissions ensureRoots beginScan clearFilesLedger)
open Sessions (ScanStatus)
open Signatures (KeptDir SignatureContext ManifestFile FilledIn Backed)

/-! ## The manifest -/

/-- A row as the walk wrote it. -/
def bare (f : FileRow) : FileRow := { f with hash := .null, identityVersion := 0 }

theorem bare_filled {f f' : FileRow} (h : FilledIn f f') : bare f' = bare f := by
  rcases h with rfl | ⟨-, digest, rfl⟩ <;> rfl

theorem map_bare_filled {fs fs' : List FileRow} (h : List.Forall₂ FilledIn fs fs') :
    fs'.map bare = fs.map bare := by
  induction h with
  | nil => rfl
  | cons hf _ ih => rw [List.map_cons, List.map_cons, bare_filled hf, ih]

/-- The tables of a scan without a row. -/
def noTables : ScanTables := ⟨[], [], [], none, none⟩

/-- Rows are written alike into tables with the same files. -/
theorem insertFiles_eq : ∀ (rows : List ManifestRow) {t s : ScanTables}, t.file = s.file →
    insertFiles rows t = ((insertFiles rows s).1, { t with file := (insertFiles rows s).2.file })
  | [], t, s, h => by
    simp only [insertFiles]
    rw [← h]
  | row :: rows, t, s, h => by
    unfold insertFiles
    split
    · rw [← h]
    · simp only
      rw [h]
      exact insertFiles_eq rows rfl

theorem insertFiles_append : ∀ (rows more : List ManifestRow) {t t' : ScanTables},
    insertFiles rows t = (.ok (), t') → insertFiles (rows ++ more) t = insertFiles more t'
  | [], more, t, t', h => by
    cases h
    rfl
  | row :: rows, more, t, t', h => by
    rw [List.cons_append]
    cases hlinks : (LinkCount.fromU64 row.nlink).toI64 with
    | error e =>
      simp only [insertFiles, hlinks] at h
      cases h
    | ok nlink =>
      simp only [insertFiles, hlinks] at h ⊢
      exact insertFiles_append rows more h

theorem insertFiles_bare : ∀ (rows : List ManifestRow) {t : ScanTables},
    (∀ f ∈ t.file, bare f = f) → ∀ f ∈ (insertFiles rows t).2.file, bare f = f
  | [], _, h => h
  | row :: rows, t, h => by
    unfold insertFiles
    split
    · exact h
    · refine insertFiles_bare rows fun f hf => ?_
      rcases List.mem_append.1 hf with hold | hnew
      · exact h f (List.mem_filter.1 hold).1
      · rw [List.mem_singleton.1 hnew]
        rfl

/-- The files of a scan are those that writing these rows leaves. -/
def Recorded (rows : List ManifestRow) (files : List FileRow) : Prop :=
  ∃ t, insertFiles rows noTables = (.ok (), t) ∧ files = t.file

theorem Recorded.more {rows more : List ManifestRow} {t t' : ScanTables} (h : Recorded rows t.file)
    (hmore : insertFiles more t = (.ok (), t')) : Recorded (rows ++ more) t'.file := by
  obtain ⟨s, hs, hfile⟩ := h
  have hsame := insertFiles_eq more hfile
  rw [hmore, Prod.mk.injEq] at hsame
  refine ⟨(insertFiles more s).2, ?_, by rw [hsame.2]⟩
  rw [insertFiles_append rows more hs]
  exact Prod.ext hsame.1.symm rfl

theorem Recorded.bare {rows : List ManifestRow} {files : List FileRow} (h : Recorded rows files) :
    files.map bare = files := by
  obtain ⟨t, ht, rfl⟩ := h
  have hbare := insertFiles_bare rows (t := noTables) fun f hf => absurd hf List.not_mem_nil
  rw [ht] at hbare
  conv_rhs => rw [← List.map_id t.file]
  exact List.map_congr_left hbare

/-! ## What a scan holds -/

section Scan

variable (inputs : RunInput → Prop) (scanId : Int) (config : ScanConfig)
  (signatureOf : List (Bytes × Bytes) → Bytes)

/-- The ledger is that of one walk: its commit, or none where the roots carry no authority. -/
def HoldsLedger (omissions : OmissionSnapshot) (ledger : OmissionLedger) : Prop :=
  match omissions with
  | .publishable perRoot => ∃ l, Blank l ∧ l.config = some config.walk.roots ∧
      commitOmissions scanId perRoot l = (.ok (), ledger)
  | .unavailable _ => Blank ledger ∧ ledger.config = some config.walk.roots

/-- A walk of one of the runs that came to its end. -/
structure WholeWalk where
  input : RunInput
  taken : inputs input
  files : List WalkedFile
  omissions : OmissionSnapshot
  finished : walkCollecting input.walker config.walk input.ownDatabase input.walkCancelled =
    .ok (.finished files omissions)

variable {inputs config}

/-- The manifest, digests apart, and the ledger are those of one walk. -/
structure HoldsWalk (walk : WholeWalk inputs config) (db : ScanDb) : Prop where
  manifest : Recorded (walk.files.map WalkedFile.row) (db.state.tables.file.map bare)
  ledger : HoldsLedger scanId config walk.omissions db.state.ledger

variable (config)

/-- The rows of the whole-subtree builder stand for directories that the manifest, as far as it is
hashed, has for twins. -/
def DirsWithin (db : ScanDb) : Prop :=
  config.dirSigAlgo = .old → ∀ outcome ctx,
    Signatures.ledgerContext db.state.ledger = .ok (outcome, ctx) →
    ∀ files, Signatures.fileHashStatus db.state.tables.file = .ok files →
    ∀ kept, Signatures.keptDirs ctx files = .ok kept → ∀ r ∈ db.dirs, Backed signatureOf kept r

/-- The rows are the groups of the manifest, by the algorithm of the scan. -/
def StoredGroups (algo : DirSigAlgo) (ctx : SignatureContext) (files : List ManifestFile)
    (dirs : List DirRow) : Prop :=
  match algo with
  | .old => ∃ kept order, Signatures.keptDirs ctx files = .ok kept ∧ order.Perm kept ∧
      ∀ r, r ∈ dirs ↔ r ∈ (Signatures.dirGroups signatureOf order).flatMap Signatures.groupRowsOf
  | .merkle => ∃ w rows, Signatures.stream ctx signatureOf Signatures.Walk.start
        (Sql.orderBy ManifestFile.path files) = (.ok (), w) ∧
      Signatures.tmpDirSig w.emitted [] = .ok rows ∧ dirs = Signatures.twinRows rows

def DirsExact (db : ScanDb) : Prop :=
  ∃ outcome ctx files, Signatures.ledgerContext db.state.ledger = .ok (outcome, ctx) ∧
    Signatures.fileHashStatus db.state.tables.file = .ok files ∧
    StoredGroups signatureOf config.dirSigAlgo ctx files db.dirs

variable {config}

/-- The publication in force was made from this manifest: derived from it, or of the populations
that comparing its groups byte by byte left. -/
def Published (inputs : RunInput → Prop) (db : ScanDb) : Prop :=
  ∃ mode before generation, before.file = db.state.tables.file ∧
    publishResults scanId true mode before = (.ok generation, db.state.tables) ∧
    (mode = .derived ∨ ∃ input groups verified, inputs input ∧
      duplicateGroups db.state.tables.file = .ok groups ∧
      verifyGroups input.filesEqual groups = .ok verified ∧ mode = .explicit verified)

/-- What a walk left out: what its ledger gives back, or what was counted beside it. -/
def Accounts (omissions : OmissionSnapshot) (ledger : OmissionLedger) (totals : OmissionSummary) :
    Prop :=
  match omissions with
  | .publishable _ => ∃ snap, completenessSnapshot ledger = .ok (.bounded snap) ∧
      snap.scanAccounting = .ok (.exact totals)
  | .unavailable why => ∃ reason, why = .roots reason totals

/-- The status tells of the candidates without a digest and of what the walk left out. -/
def StatusTells (omissions : OmissionSnapshot) (db : ScanDb) : Prop :=
  ∃ stats totals events,
    candidateStats scanId (db.state.tables.file.map fun f => (scanId, f)) = .ok stats ∧
    Accounts omissions db.state.ledger totals ∧ warningEventsOf totals = .ok events ∧
    db.status = onCompletion ((2 ^ 64 + stats.totalFiles - stats.hashedFiles) % 2 ^ 64) events

variable (config)

/-- A complete scan of one walk. -/
structure Finished (walk : WholeWalk inputs config) (db : ScanDb) : Prop where
  walked : HoldsWalk scanId walk db
  dirs : DirsExact config signatureOf db
  published : Published scanId inputs db
  status : StatusTells scanId walk.omissions db

/-- The ledger of a scan may be trusted as a whole. -/
def Authoritative (ledger : OmissionLedger) : Prop :=
  ∃ snap, completenessSnapshot ledger = .ok (.bounded snap) ∧ snap.fullyAuthoritative = true

/-- **What a scan keeps between two transactions.** -/
structure Sound (inputs : RunInput → Prop) (db : ScanDb) : Prop where
  configured : db.state.ledger.config = some config.walk.roots
  known : db.status ≠ .aborted
  hashing : db.status = .hashing → Authoritative db.state.ledger →
    ∃ walk : WholeWalk inputs config, HoldsWalk scanId walk db ∧ DirsWithin config signatureOf db
  completed : db.status.isCompleted = true →
    ∃ walk : WholeWalk inputs config, Finished scanId config signatureOf walk db

end Scan

/-! ## The ledger -/

theorem foldl_config {f : OmissionLedger → PathKey → OmissionLedger}
    (hf : ∀ l key, (f l key).config = l.config) : ∀ (keys : List PathKey) (l : OmissionLedger),
      (keys.foldl f l).config = l.config
  | [], _ => rfl
  | key :: keys, l => (foldl_config hf keys (f l key)).trans (hf l key)

theorem config_insertRoot (l : OmissionLedger) (root : PathKey) :
    (l.insertRoot root).config = l.config := by
  unfold OmissionLedger.insertRoot
  split <;> rfl

theorem config_ensureRoots (l : OmissionLedger) : (ensureRoots l).2.config = l.config := by
  unfold ensureRoots
  split
  · rfl
  · rfl
  · split
    · rfl
    · simp only
      rw [foldl_config config_insertRoot, foldl_config (f := OmissionLedger.dropRoot) fun _ _ => rfl]

theorem config_clearFilesLedger (l : OmissionLedger) : (clearFilesLedger l).2.config = l.config :=
  config_ensureRoots _

theorem config_beginScan (roots : List Path) : (beginScan roots).config = some roots := by
  unfold beginScan
  rcases Tx.atomically_cases ensureRoots ⟨some roots, [], []⟩ with ⟨a, hbody, -⟩ | ⟨-, hsame⟩
  · have hconfig := config_ensureRoots ⟨some roots, [], []⟩
    rwa [hbody] at hconfig
  · rw [hsame]

theorem values_readGenerations : ∀ {raws : List (Bytes × Int)} {acc out : OrdMap PathKey Int},
    readGenerations raws acc = .ok out → (∀ k g, acc.get? k = some g → g = 0) →
      (∀ e ∈ raws, e.2 = 0) → ∀ k g, out.get? k = some g → g = 0
  | [], acc, out, h, hacc, _ => by
    cases h
    exact hacc
  | (raw, generation) :: rest, acc, out, h, hacc, hraws => by
    obtain ⟨hgeneration, hrest⟩ := List.forall_mem_cons.1 hraws
    unfold readGenerations at h
    split at h
    · cases h
    · split at h
      · cases h
      · rename_i key _
        refine values_readGenerations h (fun k g hg => ?_) hrest
        rw [OrdMap.get?_insert] at hg
        split at hg
        · cases hg
          exact hgeneration
        · exact hacc k g hg

theorem build_registered {roots : List Path} {registered : List (Bytes × Int)}
    {rows : List StoredOmission} {snap : CompletenessSnapshot}
    (h : CompletenessSnapshot.build roots registered rows = .ok (.bounded snap)) :
    roots ≠ [] ∧ readGenerations registered .empty = .ok snap.registered := by
  unfold CompletenessSnapshot.build at h
  split at h
  · cases h
  rename_i hne
  split at h
  · cases h
  · simp only at h
    split at h
    · cases h
    · rename_i generations hread
      split at h
      · cases h
      · cases h
        exact ⟨hne, hread⟩

/-- A ledger without a generation is no authority. -/
theorem not_authoritative_of_blank {l : OmissionLedger} (h : Blank l) : ¬Authoritative l := by
  rintro ⟨snap, hsnap, hauthority⟩
  unfold completenessSnapshot at hsnap
  split at hsnap
  · cases hsnap
  rename_i roots _
  obtain ⟨hne, hread⟩ := build_registered hsnap
  have hbuilt := build_built hsnap
  obtain ⟨hagrees, hpositive⟩ := Bool.and_eq_true_iff.1 hauthority
  obtain ⟨root, hroot⟩ := List.exists_mem_of_ne_nil roots hne
  obtain ⟨keys, hkeys, hperm⟩ := hbuilt.roots
  obtain ⟨key, hkey, -⟩ := List.mem_map.1 (hkeys ▸ List.mem_map_of_mem (f := PathKey.new) hroot)
  have hregistered := (hbuilt.agrees hagrees key).2 (hperm.mem_iff.2 hkey)
  obtain ⟨g, hg⟩ := Option.isSome_iff_exists.1 (OrdMap.contains_iff.2 hregistered)
  have hzero := values_readGenerations hread (fun k g hg => by cases hg) h.1 key g hg
  have hpos := List.all_eq_true.1 hpositive g (OrdMap.mem_values.2 ⟨key, hg⟩)
  simp [hzero] at hpos

/-! ## What a scan is on its way -/

section Ways

variable {inputs : RunInput → Prop} {scanId : Int} {config : ScanConfig}
  {signatureOf : List (Bytes × Bytes) → Bytes}

/-- A scan that is not complete. -/
def Open (db : ScanDb) : Prop := db.status = .walking ∨ db.status = .hashing

theorem Open.not_completed {db : ScanDb} (h : Open db) : db.status.isCompleted ≠ true := by
  rcases h with h | h <;> rw [h] <;> decide

theorem Open.known {db : ScanDb} (h : Open db) : db.status ≠ .aborted := by
  rcases h with h | h <;> rw [h] <;> decide

/-- A scan while its walk is written: these rows, no ledger yet, and nothing of a walk before. -/
structure Filling (config : ScanConfig) (rows : List ManifestRow) (db : ScanDb) : Prop where
  recorded : Recorded rows db.state.tables.file
  dirs : db.dirs = []
  blank : Blank db.state.ledger
  configured : db.state.ledger.config = some config.walk.roots
  status : Open db

theorem Filling.sound {rows : List ManifestRow} {db : ScanDb} (h : Filling config rows db) :
    Sound scanId config signatureOf inputs db where
  configured := h.configured
  known := h.status.known
  hashing _ hauthority := absurd hauthority (not_authoritative_of_blank h.blank)
  completed hcompleted := absurd hcompleted h.status.not_completed

/-- A scan behind its walk. -/
structure Carries (scanId : Int) (signatureOf : List (Bytes × Bytes) → Bytes)
    (walk : WholeWalk inputs config) (db : ScanDb) : Prop where
  walked : HoldsWalk scanId walk db
  dirs : DirsWithin config signatureOf db
  status : Open db

theorem HoldsLedger.configured {omissions : OmissionSnapshot} {ledger : OmissionLedger}
    (h : HoldsLedger scanId config omissions ledger) :
    ledger.config = some config.walk.roots := by
  cases omissions with
  | publishable perRoot =>
    obtain ⟨l, -, hconfig, hcommit⟩ := h
    exact (commitOmissions_ok hcommit).config.trans hconfig
  | unavailable why => exact h.2

theorem Carries.sound {walk : WholeWalk inputs config} {db : ScanDb}
    (h : Carries scanId signatureOf walk db) : Sound scanId config signatureOf inputs db where
  configured := h.walked.ledger.configured
  known := h.status.known
  hashing _ _ := ⟨walk, h.walked, h.dirs⟩
  completed hcompleted := absurd hcompleted h.status.not_completed

/-- Digests are filled in. -/
theorem Carries.filled {walk : WholeWalk inputs config} {db : ScanDb}
    (h : Carries scanId signatureOf walk db) {files : List FileRow}
    (hfilled : List.Forall₂ FilledIn db.state.tables.file files) :
    Carries scanId signatureOf walk (db.setFiles files) where
  walked := ⟨by
    show Recorded _ (files.map bare)
    rw [map_bare_filled hfilled]
    exact h.walked.manifest, h.walked.ledger⟩
  dirs := by
    intro hold outcome ctx hctx files' hfiles' kept' hkept' r hr
    obtain ⟨before, hbefore, hlater⟩ := Signatures.fileHashStatus_filled hfilled hfiles'
    obtain ⟨kept, hkept, hsub⟩ := Signatures.keptDirs_filled hlater hkept'
    exact (h.dirs hold outcome ctx hctx before hbefore kept hkept r hr).mono hsub
  status := h.status

/-! ## Transactions on the files -/

theorem scanFiles_fileTable (others : FileTable) (db : ScanDb) :
    scanFiles scanId (db.fileTable scanId others) = db.state.tables.file := by
  have hnone : (others.filter fun r => decide (r.1 ≠ scanId)).filter
      (fun r => decide (r.1 = scanId)) = [] :=
    List.filter_eq_nil_iff.2 fun r hr => by simpa using (List.mem_filter.1 hr).2
  unfold scanFiles ScanDb.fileTable
  rw [List.filter_append, hnone, List.append_nil, List.filter_eq_self.2, List.map_map]
  · exact List.map_id _
  · intro r hr
    obtain ⟨f, -, rfl⟩ := List.mem_map.1 hr
    simp

theorem scanFiles_filled {source : Int × FileRow → Sql.Value → Prop} {t t' : FileTable}
    (h : FilledFrom scanId source t t') :
    List.Forall₂ FilledIn (scanFiles scanId t) (scanFiles scanId t') := by
  unfold FilledFrom at h
  induction h with
  | nil => exact .nil
  | @cons r r' t t' hr _ ih =>
    have hscan : r'.1 = r.1 := by
      rcases hr with rfl | ⟨-, -, digest, -, -, rfl⟩ <;> rfl
    have hrow : FilledIn r.2 r'.2 := by
      rcases hr with rfl | ⟨-, hnull, digest, -, -, rfl⟩
      · exact .inl rfl
      · exact .inr ⟨hnull, digest, rfl⟩
    unfold scanFiles at ih ⊢
    by_cases hin : r.1 = scanId
    · rw [List.filter_cons_of_pos (by simpa using hin),
        List.filter_cons_of_pos (by simpa [hscan] using hin)]
      exact .cons hrow ih
    · rw [List.filter_cons_of_neg (by simpa using hin),
        List.filter_cons_of_neg (by simpa [hscan] using hin)]
      exact ih

/-- A transaction that fills digests in keeps what a scan carries, whether it succeeds or not. -/
theorem onFiles_meets {α : Type} {walk : WholeWalk inputs config} {others : FileTable}
    {tx : Tx FileTable String α} {source : FileTable → Int × FileRow → Sql.Value → Prop}
    (hfilled : ∀ t, FilledFrom scanId (source t) t (tx t).2) :
    Job.Meets (Carries scanId signatureOf walk) (Job.transact (ScanDb.onFiles scanId others tx))
      (fun _ => Carries scanId signatureOf walk) (Sound scanId config signatureOf inputs) := by
  have hstep : ∀ db, Carries scanId signatureOf walk db →
      Carries scanId signatureOf walk (ScanDb.onFiles scanId others tx db).2 := by
    intro db hdb
    have hrows := scanFiles_filled (hfilled (db.fileTable scanId others))
    rw [scanFiles_fileTable] at hrows
    exact hdb.filled hrows
  refine .transact (fun db hdb => hdb.sound) ?_ ?_
  · intro db a db' hdb hrun
    rw [← show (ScanDb.onFiles scanId others tx db).2 = db' by rw [hrun]]
    exact hstep db hdb
  · intro db e db' hdb hrun
    rw [← show (ScanDb.onFiles scanId others tx db).2 = db' by rw [hrun]]
    exact (hstep db hdb).sound

theorem propagate_filled (scanId : Int) (t : FileTable) :
    FilledFrom scanId (FromObject t) t (propagateInheritedHashes scanId t).2 := by
  rw [← dropResult_snd]
  exact (callSound scanId t .propagateInheritedHashes).written

theorem inherit_filled (scanId : Int) (t : FileTable) :
    FilledFrom scanId (FromScan t) t (inheritHashes scanId t).2 := by
  rw [← dropResult_snd]
  exact (callSound scanId t .inheritHashes).written

theorem hashBatch_filled (scanId : Int) (chunk : List (ManifestRow × HashOutcome)) (p : HashProgress)
    (t : FileTable) : FilledFrom scanId
      (FromCheckpoint scanId (chunk.filterMap fun c => verifiedDigest c.1 c.2) t) t
      (hashBatch scanId chunk p t).2 := by
  rw [hashBatch_snd, ← dropResult_snd]
  exact (callSound scanId t (.recordHashesVerified _)).written

/-! ## The hash phase -/

theorem hashChunks_meets {walk : WholeWalk inputs config} (input : RunInput) :
    ∀ (chunks : List (List ManifestRow)) (p : HashProgress),
      Job.Meets (Carries scanId signatureOf walk) (hashChunks scanId input chunks p)
        (fun _ => Carries scanId signatureOf walk) (Sound scanId config signatureOf inputs)
  | [], _ => .pure fun _ h => h
  | chunk :: chunks, p => by
    refine .bind (.look fun _ _ h => h) fun stop => .ite (fun _ => .pure fun _ h => h) fun _ => ?_
    refine .bind (onFiles_meets fun t => hashBatch_filled scanId _ p t) fun p => ?_
    refine .bind (.look fun _ _ h => h) fun stop => .ite (fun _ => .pure fun _ h => h) fun _ => ?_
    exact hashChunks_meets input chunks p

theorem hashPhase_meets {walk : WholeWalk inputs config} (input : RunInput) :
    Job.Meets (Carries scanId signatureOf walk) (hashPhase scanId input)
      (fun _ => Carries scanId signatureOf walk) (Sound scanId config signatureOf inputs) := by
  refine .bind (onFiles_meets (propagate_filled scanId)) fun _ => ?_
  refine .bind (.read (fun _ h => h.sound) fun _ _ h _ => h) fun stats => ?_
  refine .bind (.read (fun _ h => h.sound) fun _ _ h _ => h) fun candidates => ?_
  exact hashChunks_meets input _ _

/-! ## The walk -/

theorem mapError_ok {ε ε' α : Type} {f : ε → ε'} {r : Except ε α} {a : α} :
    r.mapError f = .ok a ↔ r = .ok a := by
  cases r <;> simp [Except.mapError]

theorem onTables_inv {α : Type} {tx : Tx ScanTables AppError α} {db db' : ScanDb}
    {r : Except AppError α} (h : ScanDb.onTables tx db = (r, db')) :
    ∃ t, tx db.state.tables = (r, t) ∧ db' = { db with state := ⟨t, db.state.ledger⟩ } := by
  obtain ⟨rfl, rfl⟩ := Prod.mk.inj h
  exact ⟨_, rfl, rfl⟩

theorem onDirs_inv {α : Type} {tx : Tx (List DirRow) AppError α} {db db' : ScanDb}
    {r : Except AppError α} (h : ScanDb.onDirs tx db = (r, db')) :
    ∃ rows, tx db.dirs = (r, rows) ∧ db' = { db with dirs := rows } := by
  obtain ⟨rfl, rfl⟩ := Prod.mk.inj h
  exact ⟨_, rfl, rfl⟩

/-- A transaction on the tables that is rolled back leaves the scan as it was. -/
theorem onTables_meets {α : Type} {tx : Tx ScanTables AppError α} {P C : ScanDb → Prop}
    {Q : α → ScanDb → Prop} (hcut : ∀ db, P db → C db)
    (hok : ∀ db a t, P db → tx.atomically db.state.tables = (.ok a, t) →
      Q a { db with state := ⟨t, db.state.ledger⟩ }) :
    Job.Meets P (Job.transact (ScanDb.onTables tx.atomically)) Q C := by
  refine .transact hcut ?_ ?_
  · intro db a db' hdb hrun
    obtain ⟨t, ht, rfl⟩ := onTables_inv hrun
    exact hok db a t hdb ht
  · intro db e db' hdb hrun
    obtain ⟨t, ht, rfl⟩ := onTables_inv hrun
    rw [Tx.atomically_error ht]
    exact hcut db hdb

theorem recordBatches_meets : ∀ (batches : List (List ManifestRow)) {rows : List ManifestRow},
    Job.Meets (Filling config rows) (recordBatches batches)
      (fun whole db => Sound scanId config signatureOf inputs db ∧
        (whole = true → Filling config (rows ++ batches.flatten) db))
      (Sound scanId config signatureOf inputs)
  | [], rows => .pure fun db h => ⟨h.sound, fun _ => by simpa using h⟩
  | batch :: batches, rows => by
    refine .bind (R := _) (Q := fun _ => Filling config (rows ++ batch)) ?_ fun _ => ?_
    · refine onTables_meets (fun _ h => h.sound) fun db _ t h ht => ?_
      exact ⟨h.recorded.more (Tx.atomically_ok.1 ht), h.dirs, h.blank, h.configured, h.status⟩
    · refine .bind (.look fun _ _ h => h) fun stop => .ite (fun _ => ?_) fun _ => ?_
      · exact .pure fun _ h => ⟨h.sound, fun hwhole => absurd hwhole Bool.false_ne_true⟩
      · have hrest := @recordBatches_meets batches (rows ++ batch)
        rw [List.append_assoc] at hrest
        exact hrest

/-- What a publication tells of the walk behind it. -/
def Told (walk : WholeWalk inputs config) (publication : Option WalkPublication) : Prop :=
  ∀ observed, publication = some (.noAuthority observed) →
    ∃ why, walk.omissions = .unavailable (.roots why observed)

/-- Behind the walk phase: nothing to go on with, or a whole walk. -/
def Walked (inputs : RunInput → Prop) (scanId : Int) (config : ScanConfig)
    (signatureOf : List (Bytes × Bytes) → Bytes) (publication : WalkPublication) (db : ScanDb) :
    Prop :=
  Sound scanId config signatureOf inputs db ∧ (publication ≠ .cancelled →
    ∃ walk : WholeWalk inputs config, Carries scanId signatureOf walk db ∧
      Told walk (some publication))

theorem Filling.carries {walk : WholeWalk inputs config} {db : ScanDb}
    (h : Filling config (walk.files.map WalkedFile.row) db) {ledger : OmissionLedger}
    (hledger : HoldsLedger scanId config walk.omissions ledger) :
    Carries scanId signatureOf walk { db with state := ⟨db.state.tables, ledger⟩ } where
  walked := ⟨by
    show Recorded _ (db.state.tables.file.map bare)
    rw [h.recorded.bare]
    exact h.recorded, hledger⟩
  dirs := by
    intro _ _ _ _ _ _ _ _ r hr
    rw [show db.dirs = [] from h.dirs] at hr
    exact absurd hr List.not_mem_nil
  status := h.status

theorem publishWalkOmissions_meets (walk : WholeWalk inputs config) :
    Job.Meets (Filling config (walk.files.map WalkedFile.row))
      (publishWalkOmissions scanId walk.omissions) (Walked inputs scanId config signatureOf)
      (Sound scanId config signatureOf inputs) := by
  cases homissions : walk.omissions with
  | publishable perRoot =>
    refine .bind (Q := fun _ => Carries scanId signatureOf walk) ?_ fun _ => ?_
    · refine .transact (fun _ h => h.sound) ?_ ?_
      · intro db _ db' h hrun
        obtain ⟨hok, rfl⟩ := Prod.mk.inj hrun
        have hcommit := Tx.atomically_ok.1 (Prod.ext (mapError_ok.1 hok) rfl)
        refine h.carries ?_
        rw [homissions]
        exact ⟨db.state.ledger, h.blank, h.configured, hcommit⟩
      · intro db e db' h hrun
        obtain ⟨herror, rfl⟩ := Prod.mk.inj hrun
        rcases Tx.atomically_cases (commitOmissions scanId perRoot) db.state.ledger with
          ⟨_, -, hok⟩ | ⟨-, hsame⟩
        · rw [hok] at herror
          cases herror
        · rw [hsame]
          exact h.sound
    · exact .pure fun _ h => ⟨h.sound, fun _ => ⟨walk, h, fun observed he => by cases he⟩⟩
  | unavailable why =>
    have hblank : ∀ db, Filling config (walk.files.map WalkedFile.row) db →
        Carries scanId signatureOf walk db := fun db h => h.carries (by
      rw [homissions]
      exact ⟨h.blank, h.configured⟩)
    cases why with
    | roots why observed =>
      refine .pure fun db h => ⟨h.sound, fun _ => ⟨walk, hblank db h, fun other he => ?_⟩⟩
      cases he
      exact ⟨why, homissions⟩
    | countOverflow | countNotStorable | unregisteredRoot | observedOverflow =>
      show Job.Meets _ (Job.ofExcept (.error _)) _ _
      exact .ofExcept (fun _ h => h.sound) fun _ _ _ he => by cases he

theorem walkPhase_meets {input : RunInput} (htaken : inputs input) :
    Job.Meets (Filling config []) (walkPhase scanId config input)
      (Walked inputs scanId config signatureOf) (Sound scanId config signatureOf inputs) := by
  have hcancelled : ∀ db rows, Filling config rows db →
      Walked inputs scanId config signatureOf .cancelled db :=
    fun db rows h => ⟨h.sound, fun hne => absurd rfl hne⟩
  refine .bind (Q := fun outcome db => walkCollecting input.walker config.walk input.ownDatabase
    input.walkCancelled = .ok outcome ∧ Filling config [] db) ?_ fun outcome => ?_
  · exact .ofExcept (fun _ h => h.sound) fun db outcome h he => ⟨mapError_ok.1 he, h⟩
  · refine .fact (fun _ h => h.1) fun hwalk => ?_
    cases outcome with
    | cancelled files => exact .pure fun db h => hcancelled db [] h.2
    | finished files omissions =>
      refine .bind (.look fun _ _ h => h) fun stop => .ite (fun _ => ?_) fun _ => ?_
      · exact .pure fun db h => hcancelled db [] h.2
      · refine .bind ((@recordBatches_meets _ _ _ _ _ []).mono (fun _ h => h.2) fun _ _ h => h)
          fun whole => ?_
        cases whole with
        | false => exact .pure fun db h => ⟨h.1, fun hne => absurd rfl hne⟩
        | true =>
          refine .bind (.look fun _ _ h => h) fun stop => .ite (fun _ => ?_) fun _ => ?_
          · exact .pure fun db h => ⟨h.1, fun hne => absurd rfl hne⟩
          · refine (publishWalkOmissions_meets ⟨input, htaken, files, omissions, hwalk⟩).mono
              (fun db h => ?_) fun _ _ h => h
            have hrows := h.2 rfl
            rwa [List.nil_append, Chunks.flatten_chunks] at hrows

/-! ## Completion -/

theorem ledgerContext_ok {l : OmissionLedger} {outcome : SnapshotOutcome} {ctx : SignatureContext}
    (h : Signatures.ledgerContext l = .ok (outcome, ctx)) : completenessSnapshot l = .ok outcome := by
  unfold Signatures.ledgerContext at h
  split at h
  · cases h
  · rename_i roots hroots
    have hread : completenessSnapshot l =
        CompletenessSnapshot.build roots l.roots l.omissions := by
      simp only [completenessSnapshot, hroots]
    rw [hread]
    split at h
    · cases h
    · rename_i snap hbuild
      cases h
      exact hbuild
    · rename_i why hbuild
      cases h
      exact hbuild

/-- What is written is the groups of the manifest, over rows that stand for some of them. -/
theorem storeDirGroups_stored {input : RunInput} {ctx : SignatureContext}
    {files : List ManifestFile} {dirs rows : List DirRow}
    (hwithin : config.dirSigAlgo = .old → ∀ kept, Signatures.keptDirs ctx files = .ok kept →
      ∀ r ∈ dirs, Backed signatureOf kept r)
    (h : Signatures.storeDirGroups signatureOf config.dirSigAlgo input.iterate ctx files dirs =
      (.ok (), rows)) : StoredGroups signatureOf config.dirSigAlgo ctx files rows := by
  cases halgo : config.dirSigAlgo with
  | old =>
    rw [halgo] at h
    unfold Signatures.storeDirGroups Signatures.buildDirGroups at h
    cases hkept : Signatures.keptDirs ctx files with
    | error e =>
      simp only [hkept] at h
      cases h
    | ok kept =>
      simp only [hkept] at h
      refine ⟨kept, input.iterate kept, hkept, input.iterate_perm kept, ?_⟩
      exact Signatures.recordDirGroups_exact h fun r hr =>
        (hwithin halgo kept hkept r hr).perm (input.iterate_perm kept).symm
  | merkle =>
    rw [halgo] at h
    simp only [Signatures.storeDirGroups, Signatures.materializeDirGroups] at h
    split at h
    · cases h
    rename_i tmp htmp
    split at h
    · cases h
    rename_i hproduced
    cases h
    exact ⟨_, tmp, Prod.ext hproduced rfl, htmp, rfl⟩

theorem storeDirGroups_error {algo : DirSigAlgo} {iterate : List KeptDir → List KeptDir}
    {ctx : SignatureContext} {files : List ManifestFile} {dirs rows : List DirRow} {e : AppError}
    (h : Signatures.storeDirGroups signatureOf algo iterate ctx files dirs = (.error e, rows)) :
    rows = dirs := by
  cases algo with
  | old =>
    simp only [Signatures.storeDirGroups] at h
    split at h
    · cases h; rfl
    · cases h
  | merkle =>
    simp only [Signatures.storeDirGroups, Signatures.materializeDirGroups] at h
    split at h
    · cases h; rfl
    · split at h
      · cases h; rfl
      · cases h

/-- Rows that are the groups of a manifest stand for directories of it. -/
theorem StoredGroups.within {db : ScanDb} {outcome : SnapshotOutcome} {ctx : SignatureContext}
    {files : List ManifestFile}
    (hctx : Signatures.ledgerContext db.state.ledger = .ok (outcome, ctx))
    (hfiles : Signatures.fileHashStatus db.state.tables.file = .ok files)
    (h : StoredGroups signatureOf config.dirSigAlgo ctx files db.dirs) :
    DirsWithin config signatureOf db := by
  intro hold outcome' ctx' hctx' files' hfiles' kept' hkept' r hr
  obtain ⟨-, rfl⟩ := Prod.mk.inj (Except.ok.inj (hctx.symm.trans hctx'))
  obtain rfl := Except.ok.inj (hfiles.symm.trans hfiles')
  rw [hold] at h
  obtain ⟨kept, order, hkept, hperm, hrows⟩ := h
  obtain rfl := Except.ok.inj (hkept.symm.trans hkept')
  exact (Signatures.backed_of_groupRow ((hrows r).1 hr)).perm hperm

theorem insertResults_file {generation : Int} {mode : PublishMode} {t t' : ScanTables}
    (h : insertResults generation mode t = (.ok (), t')) : t'.file = t.file := by
  cases mode with
  | derived =>
    obtain ⟨-, rfl⟩ := insertDerived_ok h
    rfl
  | explicit groups =>
    obtain ⟨rows, -, hrows⟩ := insertExplicit_ok h
    rw [(insertGroups_ok hrows).1]

/-- A publication leaves the manifest, and its authority and totals behind. -/
theorem publishResults_leaves {mode : PublishMode} {t t' : ScanTables} {generation : Int}
    (h : publishResults scanId true mode t = (.ok generation, t')) :
    t'.file = t.file ∧ (∃ c, t'.membership = some c) ∧ ∃ s, t'.stats = some s := by
  obtain ⟨groups, total, -, -, hstats⟩ :=
    ScanPublication.total ⟨scanId, true, mode, t, generation, t', h⟩
  obtain ⟨-, t₁, stats, hinsert, rfl⟩ := publishResults_ok h
  have hfile : t₁.file = t.withoutResults.file := insertResults_file hinsert
  exact ⟨hfile, ⟨_, rfl⟩, _, hstats⟩

theorem Published.leaves {db : ScanDb} (h : Published scanId inputs db) :
    (∃ c, db.state.tables.membership = some c) ∧ ∃ s, db.state.tables.stats = some s := by
  obtain ⟨mode, before, generation, -, hpublish, -⟩ := h
  exact (publishResults_leaves hpublish).2

/-- Where there is an authority, preparing a scan for viewing changes nothing. -/
theorem prepare_same {db : ScanDb} {c : Sql.Value × Sql.Value}
    (h : db.state.tables.membership = some c) (foundNothing : Bool) :
    (prepareLegacyForViewing scanId foundNothing db).2 = db := by
  obtain ⟨mode, generation⟩ := c
  unfold prepareLegacyForViewing
  split
  · rfl
  rename_i snapshot hsnapshot
  have hmode : snapshot.mode ≠ .unknown := by
    unfold membershipSnapshot at hsnapshot
    simp only [if_true, h] at hsnapshot
    split at hsnapshot
    · cases hsnapshot
    rename_i decoded g hdecoded
    split at hsnapshot
    · cases hsnapshot
    · cases hsnapshot
      split at hdecoded
      · cases hdecoded
      · rename_i a ha
        cases hdecoded
        rcases (decodeAuthority_ok ha).1 with ⟨-, rfl⟩ | ⟨-, rfl⟩ <;> exact fun he => by cases he
  rw [if_neg hmode]
  split <;> rfl

theorem Finished.sound {walk : WholeWalk inputs config} {db : ScanDb}
    (h : Finished scanId config signatureOf walk db) :
    Sound scanId config signatureOf inputs db where
  configured := h.walked.ledger.configured
  known := by
    obtain ⟨_, _, _, -, -, -, hstatus⟩ := h.status
    rw [hstatus]
    unfold onCompletion
    split <;> decide
  hashing hhashing := by
    obtain ⟨_, _, _, -, -, -, hstatus⟩ := h.status
    rw [hstatus] at hhashing
    unfold onCompletion at hhashing
    split at hhashing <;> cases hhashing
  completed _ := ⟨walk, h⟩

theorem prepare_meets (walk : WholeWalk inputs config) (foundNothing : Bool) :
    Job.Meets (Finished scanId config signatureOf walk)
      (Job.transact (prepareLegacyForViewing scanId foundNothing))
      (fun _ => Finished scanId config signatureOf walk)
      (Sound scanId config signatureOf inputs) := by
  have hsame : ∀ db r db', Finished scanId config signatureOf walk db →
      prepareLegacyForViewing scanId foundNothing db = (r, db') → db' = db := by
    intro db r db' h hrun
    obtain ⟨⟨c, hc⟩, -⟩ := h.published.leaves
    rw [← prepare_same hc foundNothing, hrun]
  refine .transact (fun _ h => h.sound) (fun db _ db' h hrun => ?_) fun db _ db' h hrun => ?_
  · rw [hsame db _ db' h hrun]
    exact h
  · rw [hsame db _ db' h hrun]
    exact h.sound

/-- The account of a completion is that of its walk. -/
theorem accounts_of_completion {walk : WholeWalk inputs config} {ledger : OmissionLedger}
    (hledger : HoldsLedger scanId config walk.omissions ledger)
    {publication : Option WalkPublication} (htold : Told walk publication)
    {outcome : SnapshotOutcome} (hsnapshot : completenessSnapshot ledger = .ok outcome)
    {totals : OmissionSummary} (h : completionAccount scanId outcome publication = .ok totals) :
    Accounts walk.omissions ledger totals := by
  unfold completionAccount at h
  split at h
  · rename_i snap
    split at h
    · cases h
    · rename_i totals' hexact
      cases h
      cases homissions : walk.omissions with
      | publishable perRoot => exact ⟨snap, hsnapshot, hexact⟩
      | unavailable why =>
        rw [homissions] at hledger
        refine absurd ⟨snap, hsnapshot, ?_⟩ (not_authoritative_of_blank hledger.1)
        unfold CompletenessSnapshot.scanAccounting at hexact
        split at hexact
        · cases hexact
        · rename_i hauthority
          simpa using hauthority
    · cases h
  · split at h
    · cases h
      obtain ⟨why, homissions⟩ := htold _ rfl
      rw [homissions]
      exact ⟨why, rfl⟩
    · cases h

/-- A scan behind its walk with its groups of directories written, and its candidates counted. -/
structure Grouped (scanId : Int) (signatureOf : List (Bytes × Bytes) → Bytes)
    (walk : WholeWalk inputs config) (stats : CandidateStats) (outcome : SnapshotOutcome)
    (db : ScanDb) : Prop where
  carries : Carries scanId signatureOf walk db
  counted : candidateStats scanId (db.state.tables.file.map fun f => (scanId, f)) = .ok stats
  snapshot : completenessSnapshot db.state.ledger = .ok outcome
  dirs : DirsExact config signatureOf db

theorem Grouped.tables {walk : WholeWalk inputs config} {stats : CandidateStats}
    {outcome : SnapshotOutcome} {db : ScanDb} (h : Grouped scanId signatureOf walk stats outcome db)
    {t : ScanTables} (hfile : t.file = db.state.tables.file) :
    Grouped scanId signatureOf walk stats outcome { db with state := ⟨t, db.state.ledger⟩ } where
  carries :=
    { walked := ⟨by
        show Recorded _ (t.file.map bare)
        rw [hfile]
        exact h.carries.walked.manifest, h.carries.walked.ledger⟩
      dirs := by
        unfold DirsWithin
        rw [show (ScanDb.mk db.status ⟨t, db.state.ledger⟩ db.dirs).state.tables.file =
          db.state.tables.file from hfile]
        exact h.carries.dirs
      status := h.carries.status }
  counted := by
    show candidateStats scanId (t.file.map fun f => (scanId, f)) = .ok stats
    rw [hfile]
    exact h.counted
  snapshot := h.snapshot
  dirs := by
    unfold DirsExact
    rw [show (ScanDb.mk db.status ⟨t, db.state.ledger⟩ db.dirs).state.tables.file =
      db.state.tables.file from hfile]
    exact h.dirs

theorem publish_meets {walk : WholeWalk inputs config} {stats : CandidateStats}
    {outcome : SnapshotOutcome} {input : RunInput} (htaken : inputs input) :
    Job.Meets (Grouped scanId signatureOf walk stats outcome) (publish scanId input)
      (fun _ db => Grouped scanId signatureOf walk stats outcome db ∧ Published scanId inputs db)
      (Sound scanId config signatureOf inputs) := by
  refine .ite (fun _ => ?_) fun _ => ?_
  · refine .bind (Q := fun groups db => Grouped scanId signatureOf walk stats outcome db ∧
      duplicateGroups db.state.tables.file = .ok groups)
      (.read (fun _ h => h.carries.sound) fun _ _ h hgroups => ⟨h, hgroups⟩) fun groups => ?_
    refine .bind (Q := fun verified db => (Grouped scanId signatureOf walk stats outcome db ∧
      duplicateGroups db.state.tables.file = .ok groups) ∧
      verifyGroups input.filesEqual groups = .ok verified)
      (.ofExcept (fun _ h => h.1.carries.sound) fun _ _ h hverified => ⟨h, hverified⟩)
      fun verified => ?_
    refine .bind (onTables_meets (Q := fun _ db => Grouped scanId signatureOf walk stats outcome db ∧
      Published scanId inputs db) (fun _ h => h.1.1.carries.sound)
      fun db generation t h hpublish => ?_) fun _ => .pure fun _ h => h
    have hfile := (publishResults_leaves hpublish).1
    refine ⟨h.1.1.tables hfile, .explicit verified, db.state.tables, generation, hfile.symm,
      hpublish, .inr ⟨input, groups, verified, htaken, ?_, h.2, rfl⟩⟩
    show duplicateGroups t.file = .ok groups
    rw [hfile]
    exact h.1.2
  · refine .bind (onTables_meets (Q := fun _ db => Grouped scanId signatureOf walk stats outcome db ∧
      Published scanId inputs db) (fun _ h => h.carries.sound)
      fun db generation t h hpublish => ?_) fun _ => .pure fun _ h => h
    have hfile := (publishResults_leaves hpublish).1
    exact ⟨h.tables hfile, .derived, db.state.tables, generation, hfile.symm, hpublish, .inl rfl⟩

/-- What is left to do completes the scan of its walk. -/
theorem finish_meets {walk : WholeWalk inputs config} {publication : Option WalkPublication}
    (htold : Told walk publication) {input : RunInput} (htaken : inputs input)
    (stats : CandidateStats) :
    Job.Meets (fun db => Carries scanId signatureOf walk db ∧
        candidateStats scanId (db.state.tables.file.map fun f => (scanId, f)) = .ok stats)
      (finish scanId config input signatureOf
        ((2 ^ 64 + stats.totalFiles - stats.hashedFiles) % 2 ^ 64) publication)
      (fun _ => Sound scanId config signatureOf inputs)
      (Sound scanId config signatureOf inputs) := by
  refine .bind (Q := fun snapshot db => (Carries scanId signatureOf walk db ∧
      candidateStats scanId (db.state.tables.file.map fun f => (scanId, f)) = .ok stats) ∧
      Signatures.ledgerContext db.state.ledger = .ok snapshot)
    (.read (fun _ h => h.1.sound) fun _ _ h hread => ⟨h, mapError_ok.1 hread⟩) fun snapshot => ?_
  obtain ⟨outcome, ctx⟩ := snapshot
  refine .bind (Q := fun files db => ((Carries scanId signatureOf walk db ∧
      candidateStats scanId (db.state.tables.file.map fun f => (scanId, f)) = .ok stats) ∧
      Signatures.ledgerContext db.state.ledger = .ok (outcome, ctx)) ∧
      Signatures.fileHashStatus db.state.tables.file = .ok files)
    (.read (fun _ h => h.1.1.sound) fun _ _ h hread => ⟨h, mapError_ok.1 hread⟩) fun files => ?_
  refine .bind (Q := fun _ => Grouped scanId signatureOf walk stats outcome)
    (.transact (fun _ h => h.1.1.1.sound) ?_ ?_) fun _ => ?_
  · intro db _ db' h hrun
    obtain ⟨⟨⟨hcarries, hcounted⟩, hctx⟩, hfiles⟩ := h
    obtain ⟨rows, hrows, rfl⟩ := onDirs_inv hrun
    have hstored := storeDirGroups_stored
      (fun hold kept hkept => hcarries.dirs hold outcome ctx hctx files hfiles kept hkept) hrows
    have hwithin : DirsWithin config signatureOf { db with dirs := rows } :=
      StoredGroups.within hctx hfiles hstored
    exact ⟨⟨⟨hcarries.walked.manifest, hcarries.walked.ledger⟩, hwithin, hcarries.status⟩, hcounted,
      ledgerContext_ok hctx, outcome, ctx, files, hctx, hfiles, hstored⟩
  · intro db e db' h hrun
    obtain ⟨rows, hrows, rfl⟩ := onDirs_inv hrun
    obtain rfl := storeDirGroups_error hrows
    exact h.1.1.1.sound
  refine .bind (.look fun _ _ h => h) fun stop => .ite (fun _ => .pure fun _ h => h.carries.sound)
    fun _ => .bind (publish_meets htaken) fun _ => ?_
  refine .bind (Q := fun totals db => (Grouped scanId signatureOf walk stats outcome db ∧
      Published scanId inputs db) ∧ completionAccount scanId outcome publication = .ok totals)
    (.ofExcept (fun _ h => h.1.carries.sound) fun _ _ h he => ⟨h, he⟩) fun totals => ?_
  refine .bind (Q := fun events db => ((Grouped scanId signatureOf walk stats outcome db ∧
      Published scanId inputs db) ∧ completionAccount scanId outcome publication = .ok totals) ∧
      warningEventsOf totals = .ok events)
    (.ofExcept (fun _ h => h.1.1.carries.sound) fun _ _ h he => ⟨h, he⟩) fun events => ?_
  refine .bind (Q := fun _ => Finished scanId config signatureOf walk)
    (.transact (fun _ h => h.1.1.1.carries.sound) ?_ fun db e db' _ hrun => by cases hrun)
    fun _ => .bind (prepare_meets walk _) fun _ => .pure fun _ h => h.sound
  intro db _ db' h hrun
  obtain ⟨⟨⟨hgrouped, hpublished⟩, htotals⟩, hevents⟩ := h
  cases hrun
  have hwalked := hgrouped.carries.walked
  exact ⟨⟨hwalked.manifest, hwalked.ledger⟩, hgrouped.dirs, hpublished, stats, totals, events,
    hgrouped.counted, accounts_of_completion hwalked.ledger htold hgrouped.snapshot htotals, hevents,
    rfl⟩

/-! ## The phases -/

/-- A run goes on without a walk only behind one that is settled. -/
theorem needWalk_meets {P C : ScanDb → Prop} (hcut : ∀ db, P db → C db) (resumed : Bool) :
    Job.Meets P (needWalk resumed)
      (fun need db => P db ∧ (need = false → resumed = true ∧ db.status ≠ .walking ∧
        (db.status = .hashing → Authoritative db.state.ledger))) C := by
  refine .bind (Q := fun status db => P db ∧ db.status = status)
    (.read hcut fun db status h hread => ⟨h, Except.ok.inj hread⟩) fun status => ?_
  refine .ite (fun _ => .pure fun db h => ⟨h.1, fun he => by cases he⟩) fun hresumed => ?_
  obtain ⟨hresumed, hwalking⟩ := not_or.1 hresumed
  refine .ite (fun hhashing => ?_) fun hhashing => .pure fun db h => ⟨h.1, fun _ =>
    ⟨Bool.of_not_eq_false hresumed, by rw [h.2]; exact hwalking,
      fun he => absurd (h.2.symm.trans he) hhashing⟩⟩
  refine .bind (Q := fun outcome db => (P db ∧ db.status = status) ∧
      completenessSnapshot db.state.ledger = .ok outcome)
    (.read (fun db h => hcut db h.1) fun db outcome h hread => ⟨h, mapError_ok.1 hread⟩)
    fun outcome => ?_
  cases outcome with
  | unavailable why => exact .pure fun db h => ⟨h.1.1, fun he => by cases he⟩
  | bounded snap =>
    refine .pure fun db h => ⟨h.1.1, fun hneed => ?_⟩
    exact ⟨Bool.of_not_eq_false hresumed, by rw [h.1.2]; exact hwalking,
      fun _ => ⟨snap, h.2, by simpa using hneed⟩⟩

theorem candidateStats_fileTable (others : FileTable) (db : ScanDb) :
    candidateStats scanId (db.fileTable scanId others) =
      candidateStats scanId (db.state.tables.file.map fun f => (scanId, f)) := by
  have hown := @scanFiles_fileTable scanId [] db
  unfold ScanDb.fileTable at hown
  rw [List.filter_nil, List.append_nil] at hown
  unfold candidateStats
  rw [scanFiles_fileTable, hown]

theorem hashAndFinish_meets {walk : WholeWalk inputs config} {publication : Option WalkPublication}
    (htold : Told walk publication) {input : RunInput} (htaken : inputs input) :
    Job.Meets (Carries scanId signatureOf walk)
      (hashAndFinish scanId config input signatureOf publication)
      (fun _ => Sound scanId config signatureOf inputs)
      (Sound scanId config signatureOf inputs) := by
  -- with the digests of other scans or without them, the rest is the same
  refine .ite (fun _ => .bind (onFiles_meets (inherit_filled scanId)) fun _ => ?_) fun _ => ?_
  all_goals
    refine .bind (hashPhase_meets input) fun whole => .ite (fun _ => ?_)
      fun _ => .pure fun _ h => h.sound
    refine .bind (Q := fun status db => Carries scanId signatureOf walk db ∧ db.status = status)
      (.read (fun _ h => h.sound) fun db status h hread => ⟨h, Except.ok.inj hread⟩)
      fun status => .bind (.look fun _ _ h => h) fun stop => .ite
        (fun _ => .pure fun _ h => h.1.sound) fun _ => ?_
    refine .bind (Q := fun stats db => (Carries scanId signatureOf walk db ∧ db.status = status) ∧
        candidateStats scanId (db.state.tables.file.map fun f => (scanId, f)) = .ok stats)
      (.read (fun _ h => h.1.sound) fun db stats h hread => ⟨h, ?_⟩) fun stats => .ite
        (fun hcompleted => ?_) fun _ => ?_
    · exact (candidateStats_fileTable input.others db).symm.trans (mapError_ok.1 hread)
    · -- no scan on its way is complete
      refine .fact (p := False) (fun db h => ?_) fun hfalse => hfalse.elim
      rw [← h.1.2] at hcompleted
      exact h.1.1.status.not_completed hcompleted
    · exact (finish_meets htold htaken stats).mono (fun _ h => ⟨h.1.1, h.2⟩) fun _ _ h => h

/-- Nothing is left of a walk before. -/
theorem clearFiles_meets {P C : ScanDb → Prop} (hcut : ∀ db, P db → C db)
    (hconfigured : ∀ db, P db → db.state.ledger.config = some config.walk.roots)
    (hopen : ∀ db, P db → Open db) :
    Job.Meets P (Job.transact ScanDb.clearFiles) (fun _ => Filling config []) C := by
  refine .transact hcut ?_ ?_
  · intro db _ db' h hrun
    unfold ScanDb.clearFiles at hrun
    split at hrun
    · cases hrun
    rename_i state hclear
    cases hrun
    have hbody := Tx.atomically_ok.1 hclear
    unfold clearFilesBody at hbody
    have hblank := blank_clearFilesLedger db.state.ledger
    have hconfig := config_clearFilesLedger db.state.ledger
    split at hbody
    · cases hbody
    rename_i ledger hledger
    cases hbody
    rw [hledger] at hblank hconfig
    exact ⟨⟨noTables, rfl, rfl⟩, rfl, hblank, hconfig.trans (hconfigured db h), hopen db h⟩
  · intro db e db' h hrun
    unfold ScanDb.clearFiles at hrun
    split at hrun
    · rename_i state hclear
      cases hrun
      obtain rfl := Tx.atomically_error hclear
      exact hcut db h
    · cases hrun

theorem setHashing_meets {walk : WholeWalk inputs config} :
    Job.Meets (Carries scanId signatureOf walk) (Job.transact (ScanDb.setStatus .hashing))
      (fun _ => Carries scanId signatureOf walk) (Sound scanId config signatureOf inputs) := by
  refine .transact (fun _ h => h.sound) ?_ fun db e db' _ hrun => by cases hrun
  intro db _ db' h hrun
  cases hrun
  exact ⟨⟨h.walked.manifest, h.walked.ledger⟩, h.dirs, .inr rfl⟩

/-- The phases behind a walk of this run. -/
theorem behindWalk_meets {input : RunInput} (htaken : inputs input) {publication : WalkPublication}
    (hwhole : publication ≠ .cancelled) :
    Job.Meets (Walked inputs scanId config signatureOf publication)
      (do
        Job.transact (ScanDb.setStatus .hashing)
        hashAndFinish scanId config input signatureOf (some publication))
      (fun _ => Sound scanId config signatureOf inputs)
      (Sound scanId config signatureOf inputs) := by
  have hwalk : ∀ walk : WholeWalk inputs config, Job.Meets
      (fun db => Carries scanId signatureOf walk db ∧ Told walk (some publication))
      (do
        Job.transact (ScanDb.setStatus .hashing)
        hashAndFinish scanId config input signatureOf (some publication))
      (fun _ => Sound scanId config signatureOf inputs)
      (Sound scanId config signatureOf inputs) := fun walk =>
    .fact (fun _ h => h.2) fun htold =>
      (Job.Meets.bind setHashing_meets fun _ => hashAndFinish_meets htold htaken).mono
        (fun _ h => h.1) fun _ _ h => h
  exact (Job.Meets.exists_pre hwalk).mono (fun db h => h.2 hwhole) fun _ _ h => h

/-- The phases from a new scan, or from one on its way. -/
theorem runPhases_meets {input : RunInput} (htaken : inputs input) (resumed : Bool)
    {P : ScanDb → Prop} (hsound : ∀ db, P db → Sound scanId config signatureOf inputs db)
    (hopen : ∀ db, P db → Open db)
    (hnew : resumed = false → ∀ db, P db → Filling config [] db) :
    Job.Meets P (runPhases scanId config input signatureOf resumed)
      (fun _ => Sound scanId config signatureOf inputs)
      (Sound scanId config signatureOf inputs) := by
  refine .bind (needWalk_meets hsound resumed) fun need => .ite (fun _ => ?_) fun hneed => ?_
  · refine .ite (fun _ => .bind (clearFiles_meets (fun db h => hsound db h.1)
      (fun db h => (hsound db h.1).configured) fun db h => hopen db h.1) fun _ => ?_) fun hresumed => ?_
    all_goals
      refine .bind ((walkPhase_meets htaken).mono (fun db h => ?_) fun _ _ h => h) fun publication => ?_
      · first
        | exact h
        | exact hnew (Bool.of_not_eq_true hresumed) db h.1
      · cases publication with
        | cancelled => exact .pure fun _ h => h.1
        | committed => exact behindWalk_meets htaken fun he => by cases he
        | noAuthority observed => exact behindWalk_meets htaken fun he => by cases he
  · -- the ledger that the manifest was walked with is still in force
    have hwalk : ∀ walk : WholeWalk inputs config, Job.Meets (Carries scanId signatureOf walk)
        (hashAndFinish scanId config input signatureOf none)
        (fun _ => Sound scanId config signatureOf inputs)
        (Sound scanId config signatureOf inputs) := fun walk =>
      hashAndFinish_meets (fun observed he => by cases he) htaken
    refine (Job.Meets.exists_pre hwalk).mono (fun db h => ?_) fun _ _ h => h
    obtain ⟨-, hwalking, hauthority⟩ := h.2 (Bool.of_not_eq_true hneed)
    have hhashing := (hopen db h.1).resolve_left hwalking
    obtain ⟨walk, hwalked, hdirs⟩ := (hsound db h.1).hashing hhashing (hauthority hhashing)
    exact ⟨walk, hwalked, hdirs, .inr hhashing⟩

/-! ## Runs -/

theorem ensureScanStats_meets {P C : ScanDb → Prop} (hcut : ∀ db, P db → C db)
    (hkeep : ∀ db, P db → P (ScanDb.ensureScanStats db).2) :
    Job.Meets P (Job.transact ScanDb.ensureScanStats) (fun _ => P) C := by
  refine .transact hcut ?_ fun db e db' _ hrun => by cases hrun
  intro db _ db' h hrun
  rw [← show (ScanDb.ensureScanStats db).2 = db' by rw [hrun]]
  exact hkeep db h

theorem begun_filling (config : ScanConfig) : Filling config [] (begun config) where
  recorded := ⟨noTables, rfl, rfl⟩
  dirs := rfl
  blank := blank_beginScan _
  configured := config_beginScan _
  status := .inl rfl

/-- **The first run of a scan, however it ends, leaves a sound one.** -/
theorem firstRun_sound {input : RunInput} (htaken : inputs input) :
    Job.Meets (· = begun config) (firstRun scanId config signatureOf input)
      (fun _ => Sound scanId config signatureOf inputs)
      (Sound scanId config signatureOf inputs) := by
  refine .bind (Q := fun _ => Filling config []) ?_ fun _ => runPhases_meets htaken false
    (fun _ h => h.sound) (fun _ h => h.status) fun _ _ h => h
  refine (ensureScanStats_meets (P := Filling config []) (fun _ h => h.sound) fun db h => ?_).mono
    (fun db h => h ▸ begun_filling config) fun _ _ h => h
  exact ⟨h.recorded, h.dirs, h.blank, h.configured, h.status⟩

/-- The totals of a complete scan are there. -/
theorem Finished.ensureScanStats {walk : WholeWalk inputs config} {db : ScanDb}
    (h : Finished scanId config signatureOf walk db) : (ScanDb.ensureScanStats db).2 = db := by
  obtain ⟨-, stats, hstats⟩ := h.published.leaves
  obtain ⟨status, ⟨⟨file, fileGroup, member, membership, stats'⟩, ledger⟩, dirs⟩ := db
  subst hstats
  rfl

theorem Sound.ensureScanStats {db : ScanDb} (h : Sound scanId config signatureOf inputs db) :
    Sound scanId config signatureOf inputs (ScanDb.ensureScanStats db).2 where
  configured := h.configured
  known := h.known
  hashing hhashing hauthority := by
    obtain ⟨walk, hwalked, hdirs⟩ := h.hashing hhashing hauthority
    exact ⟨walk, ⟨hwalked.manifest, hwalked.ledger⟩, hdirs⟩
  completed hcompleted := by
    obtain ⟨walk, hfinished⟩ := h.completed hcompleted
    exact ⟨walk, by rwa [hfinished.ensureScanStats]⟩

theorem Sound.open {db : ScanDb} (h : Sound scanId config signatureOf inputs db)
    (hcompleted : db.status.isCompleted ≠ true) : Open db := by
  have hknown := h.known
  unfold Open
  cases hstatus : db.status <;> simp_all [ScanStatus.isCompleted]

/-- **A resume of a sound scan, however it ends, leaves a sound one.** -/
theorem resume_sound {input : RunInput} (htaken : inputs input) :
    Job.Meets (Sound scanId config signatureOf inputs) (resume scanId config signatureOf input)
      (fun _ => Sound scanId config signatureOf inputs)
      (Sound scanId config signatureOf inputs) := by
  refine .bind (Q := fun _ => Sound scanId config signatureOf inputs)
    (.ofExcept (fun _ h => h) fun _ _ h _ => h) fun _ => ?_
  refine .bind (ensureScanStats_meets (fun _ h => h) fun db h => h.ensureScanStats) fun _ => ?_
  refine .bind (Q := fun status db => Sound scanId config signatureOf inputs db ∧ db.status = status)
    (.read (fun _ h => h) fun db status h hread => ⟨h, Except.ok.inj hread⟩) fun status => .ite
      (fun hcompleted => ?_) fun hopen => ?_
  · refine .bind (Q := fun _ => Sound scanId config signatureOf inputs) ?_ fun _ => .pure fun _ h => h
    refine (Job.Meets.exists_pre fun walk => (prepare_meets walk _).mono (fun _ h => h)
      fun _ _ h => h.sound).mono (fun db h => ?_) fun _ _ h => h
    exact h.1.completed (h.2 ▸ hcompleted)
  · exact runPhases_meets htaken true (fun _ h => h.1)
      (fun db h => h.1.open (h.2 ▸ hopen)) fun hnew => by cases hnew

/-- A complete scan is shown as it is. -/
theorem resume_finished {walk : WholeWalk inputs config} {db : ScanDb}
    (h : Finished scanId config signatureOf walk db) (hcompleted : db.status.isCompleted = true)
    (input : RunInput) (sky : Sky AppError) :
    (resume scanId config signatureOf input).left sky db = db := by
  obtain ⟨⟨c, hc⟩, -⟩ := h.published.leaves
  refine Job.Meets.left (P := (· = db)) (I := (· = db)) ?_ sky rfl
  refine .bind (Q := fun _ => (· = db)) (.ofExcept (fun _ h => h) fun _ _ h _ => h) fun _ => ?_
  refine .bind (ensureScanStats_meets (P := (· = db)) (fun _ h => h) fun _ hdb => ?_) fun _ => ?_
  · rw [hdb]
    exact h.ensureScanStats
  refine .bind (Q := fun status db' => db' = db ∧ db'.status = status)
    (.read (fun _ h => h) fun _ status h hread => ⟨h, Except.ok.inj hread⟩) fun status => .ite
      (fun _ => ?_) fun hopen => ?_
  · have hsame : ∀ db' r db'', db' = db → prepareLegacyForViewing scanId input.foundNothing db' =
        (r, db'') → db'' = db := by
      rintro _ r db'' rfl hrun
      rw [← prepare_same hc input.foundNothing, hrun]
    exact .bind (Q := fun _ => (· = db)) (.transact (fun _ h => h.1)
      (fun db' _ db'' h hrun => hsame db' _ db'' h.1 hrun)
      fun db' _ db'' h hrun => hsame db' _ db'' h.1 hrun) fun _ => .pure fun _ h => h
  · refine .fact (p := False) (fun db' hdb => hopen ?_) fun hfalse => hfalse.elim
    rw [← hdb.2, hdb.1]
    exact hcompleted

end Ways

/-- **However the first run of a scan and any number of resumes are cut, refused or cancelled,
and whatever each of them meets, a scan that is complete is that of one whole walk: its manifest
and ledger are that walk's, its groups are those of the manifest, and its status tells of what was
left out. From then on no resume changes it.** -/
theorem crash_consistency (scanId : Int) (config : ScanConfig)
    (signatureOf : List (Bytes × Bytes) → Bytes) (first : RunInput × Sky AppError)
    (resumes : List (RunInput × Sky AppError)) (db : ScanDb)
    (hdb : db = Job.leftBy (resumes.map fun r => (resume scanId config signatureOf r.1, r.2))
      ((firstRun scanId config signatureOf first.1).left first.2 (begun config)))
    (hcompleted : db.status.isCompleted = true) :
    (∃ walk : WholeWalk (fun input => ∃ r ∈ first :: resumes, r.1 = input) config,
      Finished scanId config signatureOf walk db) ∧
    ∀ input sky, (resume scanId config signatureOf input).left sky db = db := by
  have hfirst := @firstRun_sound (fun input => ∃ r ∈ first :: resumes, r.1 = input) scanId config
    signatureOf first.1 ⟨first, List.mem_cons_self, rfl⟩
  have hsound : Sound scanId config signatureOf (fun input => ∃ r ∈ first :: resumes, r.1 = input)
      db := by
    rw [hdb]
    refine Job.leftBy_keeps (fun j hj => ?_) ?_
    · obtain ⟨r, hr, rfl⟩ := List.mem_map.1 hj
      exact resume_sound ⟨r, List.mem_cons_of_mem _ hr, rfl⟩
    · exact hfirst.left first.2 rfl
  obtain ⟨walk, hfinished⟩ := hsound.completed hcompleted
  exact ⟨⟨walk, hfinished⟩, resume_finished hfinished hcompleted⟩

/-- What `stat` says of an entry with one link. -/
def foundMeta (size inode : Nat) : Except WalkError WalkMeta := .ok ⟨size, 10, 0, 10, 0, 1, inode, 1⟩

/-- Below `/t`, the directories `a` and `b` of one file each, a small file, and a directory that
could not be listed. -/
def twinItems : List WalkItem :=
  [.ok ⟨[.rootDir, .normal ⟨[116], isName_tree⟩], [116], some .dir, foundMeta 0 1⟩,
    .ok ⟨[.rootDir, .normal ⟨[116], isName_tree⟩, .normal ⟨[97], isName_small⟩], [97], some .dir,
      foundMeta 0 2⟩,
    .ok ⟨[.rootDir, .normal ⟨[116], isName_tree⟩, .normal ⟨[97], isName_small⟩,
      .normal ⟨[99], isName_large⟩], [99], some .file, foundMeta 20 3⟩,
    .ok ⟨[.rootDir, .normal ⟨[116], isName_tree⟩, .normal ⟨[98], isName_sub⟩], [98], some .dir,
      foundMeta 0 4⟩,
    .ok ⟨[.rootDir, .normal ⟨[116], isName_tree⟩, .normal ⟨[98], isName_sub⟩,
      .normal ⟨[99], isName_large⟩], [99], some .file, foundMeta 20 5⟩,
    .ok ⟨[.rootDir, .normal ⟨[116], isName_tree⟩, .normal ⟨[97, 97], isName_unread⟩], [97, 97],
      some .file, foundMeta 5 6⟩,
    .error (.withPath [.rootDir, .normal ⟨[116], isName_tree⟩, .normal ⟨[100], isName_failed⟩]
      (.io "denied"))]

def sharedDigest : Bytes := List.replicate 32 7

/-- What a run meets over `twinItems`: every candidate is read to its end and has one content. -/
def treeInput : RunInput where
  roots := treeLook
  walker := ⟨fun _ => .ok (), fun _ => twinItems⟩
  shown := fun _ => ""
  ownDatabase := []
  walkCancelled := fun _ => false
  others := []
  outcome := fun row => .whole sharedDigest ⟨row.device, row.inode, row.size,
    ⟨row.mtime, row.mtimeNsec⟩, ⟨row.ctimeSec, row.ctimeNsec⟩, .regular, 420⟩
  verify := true
  filesEqual := fun _ _ => .ok true
  foundNothing := false
  iterate := fun dirs => dirs
  iterate_perm := fun dirs => .refl dirs

/-- The process ends in front of the checkpoint of the digests. -/
def endedSky : Sky AppError := ⟨fun n => if n = 12 then .ended else .fair, fun _ => false⟩

/-- The store refuses the publication. -/
def refusedSky : Sky AppError :=
  ⟨fun n => if n = 18 then .refused ⟨"database is locked"⟩ else .fair, fun _ => false⟩

/-- The operator stops the run behind the groups of directories. -/
def stoppedSky : Sky AppError := ⟨fun _ => .fair, fun n => decide (n = 13)⟩

def fairSky : Sky AppError := ⟨fun _ => .fair, fun _ => false⟩

def treeConfig : ScanConfig :=
  ⟨⟨[[.rootDir, .normal ⟨[116], isName_tree⟩]], [], 10, none, []⟩, false, .old⟩

def treeSignature (files : List (Bytes × Bytes)) : Bytes := files.flatMap fun f => f.1 ++ f.2

def treeCut : ScanDb :=
  (firstRun 1 treeConfig treeSignature treeInput).left endedSky (begun treeConfig)

/-- The runs behind the first: one is refused, one is stopped, one comes to its end. -/
def treeResumes : List (RunInput × Sky AppError) :=
  [(treeInput, refusedSky), (treeInput, stoppedSky), (treeInput, fairSky)]

def treeRuns : ScanDb :=
  Job.leftBy (treeResumes.map fun r => (resume 1 treeConfig treeSignature r.1, r.2)) treeCut

/-- The cut leaves a manifest without digests; the last run leaves them, the twins `/t/a` and `/t/b`,
one group of files, and a status that tells of the directory that could not be listed. -/
theorem crash_consistency_tree :
    treeCut.state.tables.file.map FileRow.hash = [.null, .null] ∧
      treeRuns.state.tables.file.map FileRow.hash = [.blob sharedDigest, .blob sharedDigest] ∧
      treeRuns.dirs.map DirRow.path = [.text [47, 116, 47, 97], .text [47, 116, 47, 98]] ∧
      treeRuns.state.tables.fileGroup.map GroupRow.fileCount = [.integer 2] ∧
      treeRuns.status = .completeWithWarnings ∧
      (∃ walk : WholeWalk (fun input => ∃ r ∈ (treeInput, endedSky) :: treeResumes, r.1 = input)
          treeConfig, Finished 1 treeConfig treeSignature walk treeRuns) ∧
      ∀ input sky, (resume 1 treeConfig treeSignature input).left sky treeRuns = treeRuns := by
  have hcompleted : treeRuns.status = .completeWithWarnings := by decide +kernel
  refine ⟨by decide +kernel, by decide +kernel, by decide +kernel, by decide +kernel, hcompleted, ?_⟩
  exact crash_consistency 1 treeConfig treeSignature (treeInput, endedSky) treeResumes treeRuns rfl
    (by rw [hcompleted]; rfl)

end Pipeline

end DedupCommando
