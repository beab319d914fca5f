import DedupCommando.Pipeline.HashFile
import DedupCommando.Store.CandidateProgress

/-!
# Where digests come from

The digests of the manifest rows, traced back to the reads of files while other processes changed
the file system.

* `outcomeOf`, `ReadsTo` — what a finished read of a candidate can come to.
* `RowTimes`, `RowIdentity` — a row has the size and the times of an identity, or all of it.
* `hash_phase_provenance` — **what a hash phase writes is the digest of one complete read of the
  object whose identity the row carries**, or was trusted before.
* `TableOp`, `TableRun` — the transactions that write the table, in any order.
* `digest_lineage` — **every trusted digest of every scan is that of a complete read**, however
  often it was handed on.
-/

set_option autoImplicit false

namespace DedupCommando

open Sql (Value)

open HashFile (Hashed History ReadWhole Schedule hashFileVerified hashFileVerified_whole)

/-! ## Reads and rows -/

def outcomeOf : Except IoError Hashed → HashOutcome
  | .ok (.whole digest identity) => .whole digest identity
  | .ok .stopped => .stopped
  | .error _ => .failed

/-- A finished read of the pathname, made at some moments of the history, comes to this. -/
def ReadsTo (hash : Bytes → Bytes) (h : History) (path : Bytes) (outcome : HashOutcome) : Prop :=
  ∃ (s : Schedule) (result : Except IoError Hashed) (read : Nat),
    hashFileVerified hash h path s.turns = some (result, read) ∧ outcomeOf result = outcome

/-- The row has the size and the times. -/
structure RowTimes (f : FileRow) (id : FileIdentity) : Prop where
  size : f.size.same (.integer (castI64 id.size)) = true
  mtime : f.mtime = id.mtime.sec
  mtimeNsec : f.mtimeNsec = id.mtime.nsec
  ctimeSec : f.ctimeSec = id.ctime.sec
  ctimeNsec : f.ctimeNsec = id.ctime.nsec

/-- The row has the size, the times, the device and the inode. -/
structure RowIdentity (f : FileRow) (id : FileIdentity) : Prop extends RowTimes f id where
  device : f.device = castI64 id.dev
  inode : f.inode = castI64 id.ino

/-- One complete read that has given this digest. -/
def DigestOfRead (hash : Bytes → Bytes) (h : History) (path digest : Bytes) (id : FileIdentity) :
    Prop :=
  ∃ object opening first last check,
    ReadWhole hash h path digest id object opening first last check

/-- The digest is that of a complete read, made under the name of a row of the same object, of an
object that had the row's identity. -/
def FromRead (hash : Bytes → Bytes) (h : History) (t : FileTable) (r : Int × FileRow)
    (digest : Value) : Prop :=
  ∃ g ∈ t, g.1 = r.1 ∧ g.2.sameObject r.2 = true ∧ ∃ path bytes id,
    g.2.path = .text (lossyUtf8 path) ∧ RowIdentity r.2 id ∧ digest = .blob bytes ∧
      DigestOfRead hash h path bytes id

section Rows

variable {hash : Bytes → Bytes} {h : History}

theorem same_size_right {a b c : Value} (hab : a.same b = true) (hac : a.same c = true) :
    b.same c = true := by
  obtain ⟨hne, hkey⟩ := Value.same_iff.1 hab
  obtain ⟨-, hkey'⟩ := Value.same_iff.1 hac
  apply Value.same_iff.2
  refine ⟨?_, hkey.symm.trans hkey'⟩
  rw [Value.same_comm] at hab
  exact (Value.same_iff.1 hab).1

theorem RowTimes.of_same {f g : FileRow} {id : FileIdentity} (hg : RowTimes g id)
    (hsize : g.size.same f.size = true)
    (htimes : g.mtime = f.mtime ∧ g.mtimeNsec = f.mtimeNsec ∧ g.ctimeSec = f.ctimeSec ∧
      g.ctimeNsec = f.ctimeNsec) : RowTimes f id := by
  obtain ⟨hmtime, hmtimeNsec, hctime, hctimeNsec⟩ := htimes
  exact
    { size := same_size_right hsize hg.size
      mtime := hmtime ▸ hg.mtime
      mtimeNsec := hmtimeNsec ▸ hg.mtimeNsec
      ctimeSec := hctime ▸ hg.ctimeSec
      ctimeNsec := hctimeNsec ▸ hg.ctimeNsec }

theorem sameObject_times {f g : FileRow} (hsame : g.sameObject f = true) :
    g.size.same f.size = true ∧ g.mtime = f.mtime ∧ g.mtimeNsec = f.mtimeNsec ∧
      g.ctimeSec = f.ctimeSec ∧ g.ctimeNsec = f.ctimeNsec := by
  simp only [FileRow.sameObject, Bool.and_eq_true, decide_eq_true_eq] at hsame
  obtain ⟨hsize, -, -, htimes⟩ := hsame
  exact ⟨hsize, htimes⟩

theorem RowIdentity.of_same {f g : FileRow} {id : FileIdentity} (hg : RowIdentity g id)
    (hsame : g.sameObject f = true) : RowIdentity f id := by
  obtain ⟨hsize, htimes⟩ := sameObject_times hsame
  simp only [FileRow.sameObject, Bool.and_eq_true, decide_eq_true_eq] at hsame
  obtain ⟨-, hdevice, hinode, -⟩ := hsame
  exact
    { toRowTimes := hg.toRowTimes.of_same hsize htimes
      device := hdevice ▸ hg.device
      inode := hinode ▸ hg.inode }

theorem manifestMatches_iff {opened : FileIdentity} {row : ManifestRow} :
    manifestMatches opened row = true ↔
      opened.size = row.size ∧ opened.mtime.sec = row.mtime ∧ opened.mtime.nsec = row.mtimeNsec ∧
        opened.ctime.sec = row.ctimeSec ∧ opened.ctime.nsec = row.ctimeNsec ∧
        opened.dev = row.device ∧ opened.ino = row.inode := by
  simp [manifestMatches]

/-- A row that the conditional update meets has the identity of the descriptor. -/
theorem carries_of_verifiedRow {scanId : Int} {row : ManifestRow} {g : Int × FileRow}
    {opened : FileIdentity} (hmatches : manifestMatches opened row = true)
    (hv : verifiedRow scanId row g = true) : RowIdentity g.2 opened := by
  obtain ⟨hsize, hm, hmn, hc, hcn, hdev, hino⟩ := manifestMatches_iff.1 hmatches
  obtain ⟨-, -, -, hgsize, hgm, hgmn, hgc, hgcn, hgdev, hgino⟩ := verifiedRow_iff.1 hv
  exact
    { size := hsize ▸ hgsize
      mtime := hgm.trans hm.symm
      mtimeNsec := hgmn.trans hmn.symm
      ctimeSec := hgc.trans hc.symm
      ctimeNsec := hgcn.trans hcn.symm
      device := hdev ▸ hgdev
      inode := hino ▸ hgino }

/-- What a checkpoint is handed for a candidate: the digest of a read whose identity is the
candidate's. -/
def Handed (hash : Bytes → Bytes) (h : History) (row : ManifestRow × Bytes) : Prop :=
  ∃ opened, ReadsTo hash h row.1.path (.whole row.2 opened) ∧ manifestMatches opened row.1 = true

theorem ReadsTo.digestOfRead (hstamped : h.Stamped) {path digest : Bytes} {id : FileIdentity}
    (hreads : ReadsTo hash h path (.whole digest id)) : DigestOfRead hash h path digest id := by
  obtain ⟨s, result, read, hrun, hout⟩ := hreads
  match result, hout with
  | .ok (.whole _ _), rfl =>
    obtain ⟨-, object, opening, -, first, -, last, -, check, -, hwhole⟩ :=
      hashFileVerified_whole hstamped s hrun
    exact ⟨object, _, _, _, _, hwhole⟩

theorem Handed.read (hstamped : h.Stamped) {row : ManifestRow × Bytes}
    (hhanded : Handed hash h row) {scanId : Int} {g : Int × FileRow}
    (hv : verifiedRow scanId row.1 g = true) :
    ∃ id, g.2.path = .text (lossyUtf8 row.1.path) ∧ RowIdentity g.2 id ∧
      DigestOfRead hash h row.1.path row.2 id := by
  obtain ⟨opened, hreads, hmatches⟩ := hhanded
  exact ⟨opened, (verifiedRow_iff.1 hv).2.1, carries_of_verifiedRow hmatches hv,
    hreads.digestOfRead hstamped⟩

theorem handed_of_verifiedDigest {outcome : ManifestRow → HashOutcome}
    (hreads : ∀ row : ManifestRow, ReadsTo hash h row.path (outcome row))
    {chunk : List ManifestRow} {row : ManifestRow × Bytes}
    (hrow : row ∈ (chunk.map fun row => (row, outcome row)).filterMap
      fun c => verifiedDigest c.1 c.2) : Handed hash h row := by
  simp only [List.mem_filterMap, List.mem_map] at hrow
  obtain ⟨_, ⟨candidate, -, rfl⟩, hdigest⟩ := hrow
  have hread := hreads candidate
  revert hdigest hread
  generalize outcome candidate = out
  intro hdigest hread
  cases out with
  | whole digest opened =>
    simp only [verifiedDigest] at hdigest
    split at hdigest
    · rename_i hmatches
      cases hdigest
      exact ⟨opened, hread, hmatches⟩
    · cases hdigest
  | stopped => cases hdigest
  | failed => cases hdigest

end Rows

/-! ## A hash phase -/

theorem dropResult_snd {σ α : Type} (body : Tx σ String α) (s : σ) :
    (dropResult body s).2 = (body s).2 := by
  unfold dropResult
  split
  · rename_i heq
    rw [heq]
  · rename_i heq
    rw [heq]

namespace FilledFrom

variable {scanId : Int} {source source' : Int × FileRow → Value → Prop} {t t' : FileTable}

/-- The sources of the rows that were filled, read in another way. -/
theorem imp (h : FilledFrom scanId source t t')
    (himp : ∀ r ∈ t, r.1 = scanId → ∀ digest, source r digest → source' r digest) :
    FilledFrom scanId source' t t' := by
  unfold FilledFrom at *
  induction h with
  | nil => exact .nil
  | cons hr _ ih =>
    refine .cons ?_ (ih fun r hmem => himp r (List.mem_cons_of_mem _ hmem))
    rcases hr with hsame | ⟨hscan, hnull, digest, hne, hsource, hfilled⟩
    · exact .inl hsame
    · exact .inr ⟨hscan, hnull, digest, hne, himp _ List.mem_cons_self hscan digest hsource,
        hfilled⟩

end FilledFrom

section Phase

variable {hash : Bytes → Bytes} {h : History} {scanId : Int} {t₀ t : FileTable}

/-- Where a digest that a phase writes comes from. -/
def PhaseSource (hash : Bytes → Bytes) (h : History) (t : FileTable) (r : Int × FileRow)
    (digest : Value) : Prop :=
  FromObject t r digest ∨ FromRead hash h t r digest

theorem PhaseSource.of_same {g r : Int × FileRow} {digest : Value}
    (hg : PhaseSource hash h t g digest) (hscan : g.1 = r.1)
    (hsame : g.2.sameObject r.2 = true) : PhaseSource hash h t r digest := by
  rcases hg with ⟨src, hsrc, hs, hdigest⟩ | ⟨src, hsrc, hs, ho, path, bytes, id, hpath, hcarries, hread⟩
  · obtain ⟨hscan', hobject, htrusted⟩ := trustedSource_iff.1 hs
    refine .inl ⟨src, hsrc, trustedSource_iff.2 ⟨hscan'.trans hscan, ?_, htrusted⟩, hdigest⟩
    exact FileRow.sameObject_trans hobject hsame
  · refine .inr ⟨src, hsrc, hs.trans hscan, FileRow.sameObject_trans ho hsame, path, bytes, id,
      hpath, hcarries.of_same hsame, hread⟩

/-- **One checkpoint of a phase**: what it takes over from a row goes back to the table the phase
began with, or to a read. -/
theorem checkpoint_source (hstamped : h.Stamped) {rows : List (ManifestRow × Bytes)}
    (hrows : ∀ row ∈ rows, Handed hash h row)
    (hfilled : FilledFrom scanId (PhaseSource hash h t₀) t₀ t) {r : Int × FileRow} {digest : Value}
    (hcheckpoint : FromCheckpoint scanId rows t r digest) : PhaseSource hash h t₀ r digest := by
  obtain ⟨g, hg, hscan, hsame, htaken⟩ := hcheckpoint
  obtain ⟨g₀, hg₀, rfl | ⟨-, hnull, d, hd, hsource, rfl⟩⟩ := hfilled.mem_right hg
  · rcases htaken with ⟨htrusted, hdigest⟩ | ⟨row, hrow, hv, rfl⟩
    · exact .inl ⟨g, hg₀, trustedSource_iff.2 ⟨hscan, hsame, htrusted⟩, hdigest⟩
    · obtain ⟨id, hpath, hcarries, hread⟩ := (hrows row hrow).read hstamped hv
      exact .inr ⟨g, hg₀, hscan, hsame, row.1.path, row.2, id, hpath, hcarries.of_same hsame, rfl,
        hread⟩
  · rcases htaken with ⟨-, hdigest⟩ | ⟨row, -, hv, -⟩
    · rw [filled_hash] at hdigest
      subst hdigest
      exact hsource.of_same hscan hsame
    · -- the row that a checkpoint verifies has no digest
      exact absurd (verifiedRow_iff.1 hv).2.2.1 hd

/-- What a propagation takes over, a checkpoint without rows would. -/
theorem FromObject.checkpoint {r : Int × FileRow} {digest : Value} (hfrom : FromObject t r digest) :
    FromCheckpoint scanId [] t r digest := by
  obtain ⟨src, hsrc, hs, hdigest⟩ := hfrom
  obtain ⟨hscan, hsame, htrusted⟩ := trustedSource_iff.1 hs
  exact ⟨src, hsrc, hscan, hsame, .inl ⟨htrusted, hdigest⟩⟩

theorem hashBatch_snd (scanId : Int) (chunk : List (ManifestRow × HashOutcome)) (p : HashProgress)
    (t : FileTable) : (hashBatch scanId chunk p t).2 =
      (recordHashesVerified scanId (chunk.filterMap fun c => verifiedDigest c.1 c.2) t).2 := by
  unfold hashBatch
  dsimp only
  split
  · rename_i heq
    rw [heq]
  · rename_i heq
    rw [heq]

section Keeps

variable {keeps : FileTable → Prop} {outcome : ManifestRow → HashOutcome} {stop : Nat → Bool}

theorem hashBatches_keeps (hreads : ∀ row : ManifestRow, ReadsTo hash h row.path (outcome row))
    (hcheckpoint : ∀ rows t, (∀ row ∈ rows, Handed hash h row) → keeps t →
      keeps (recordHashesVerified scanId rows t).2) :
    ∀ {chunks : List (List ManifestRow)} {batch : Nat} {p : HashProgress} {t : FileTable},
      keeps t → keeps (hashBatches scanId outcome stop batch chunks p t).2
  | [], _, _, _, ht => ht
  | chunk :: chunks, batch, p, t, ht => by
    have hstep : keeps (hashBatch scanId (chunk.map fun row => (row, outcome row)) p t).2 := by
      rw [hashBatch_snd]
      exact hcheckpoint _ t (fun _ => handed_of_verifiedDigest hreads) ht
    unfold hashBatches
    split
    · exact ht
    · split
      · rename_i heq
        rw [heq] at hstep
        exact hstep
      · rename_i heq
        rw [heq] at hstep
        split
        · exact hstep
        · exact hashBatches_keeps hreads hcheckpoint hstep

/-- What the propagation and every checkpoint of honest reads keep, a phase keeps. -/
theorem hashPhase_keeps (hreads : ∀ row : ManifestRow, ReadsTo hash h row.path (outcome row))
    (hpropagate : ∀ t, keeps t → keeps (propagateInheritedHashes scanId t).2)
    (hcheckpoint : ∀ rows t, (∀ row ∈ rows, Handed hash h row) → keeps t →
      keeps (recordHashesVerified scanId rows t).2) (ht : keeps t) :
    keeps (hashPhase scanId outcome stop t).2 := by
  have hinherited := hpropagate t ht
  unfold hashPhase
  split
  · rename_i heq
    rw [heq] at hinherited
    exact hinherited
  · rename_i heq
    rw [heq] at hinherited
    dsimp only at hinherited
    split
    · exact hinherited
    · rename_i stats _
      split
      · exact hinherited
      · rename_i candidates _
        have hbatches := @hashBatches_keeps hash h scanId keeps outcome stop hreads hcheckpoint
          (Chunks.chunks (hashChunk - 1)
            (Sql.orderBy (fun row : ManifestRow => toLex (row.device, row.inode)) candidates))
          0 ⟨stats.hashedFiles, stats.hashedBytes, 0, 0⟩ _ hinherited
        dsimp only
        split
        · rename_i heq
          rw [heq] at hbatches
          exact hbatches
        · rename_i heq
          rw [heq] at hbatches
          exact hbatches

end Keeps

/-- **What a hash phase writes**, whatever other processes do meanwhile: a row that had a digest
keeps it, and a row receives one of a trusted row of its object, or that of one complete read, under
the name of a row of the object, of the content an object had all the time it was read and with
which it carried the row's size, times, device and inode. -/
theorem hash_phase_provenance (hstamped : h.Stamped) {outcome : ManifestRow → HashOutcome}
    (hreads : ∀ row : ManifestRow, ReadsTo hash h row.path (outcome row)) (scanId : Int)
    (stop : Nat → Bool) (t : FileTable) :
    FilledFrom scanId (fun r digest => FromObject t r digest ∨ FromRead hash h t r digest) t
      (hashPhase scanId outcome stop t).2 := by
  apply @hashPhase_keeps hash h scanId t (FilledFrom scanId (PhaseSource hash h t) t) outcome stop
    hreads
  · intro t' hfilled
    have hwritten := (callSound_propagate scanId t').written
    rw [HashOp.run, dropResult_snd] at hwritten
    refine hfilled.trans (hwritten.imp ?_)
    intro r _ _ digest hfrom
    exact checkpoint_source hstamped (List.forall_mem_nil _) hfilled (FromObject.checkpoint hfrom)
  · intro rows t' hrows hfilled
    refine hfilled.trans ((recordHashesVerified_filled rows t').imp ?_)
    intro r _ _ digest hcheckpoint
    exact checkpoint_source hstamped hrows hfilled hcheckpoint
  · exact FilledFrom.refl t

end Phase

/-! ### A file that is overwritten behind its read -/

/-- Five bytes until the tenth moment, and none from then on. -/
def overwritten (moment : Nat) : Node where
  kind := .regular
  content := if moment < 10 then [1, 2, 3, 4, 5] else []
  uid := 0
  gid := 0
  mode := 0
  atime := ⟨moment, 0⟩
  mtime := ⟨1, 0⟩
  ctime := if moment < 10 then ⟨1, 0⟩ else ⟨2, 0⟩
  xattrs := []
  nlink := 1

/-- `/a` is that file. -/
def overwrittenHistory : History := fun moment =>
  ⟨fun path => if path = [47, 97] then some 0 else none, fun _ => (⟨1, 97⟩, overwritten moment),
    fun _ => false⟩

theorem overwrittenHistory_stamped : overwrittenHistory.Stamped := by
  intro object
  exact Stamped.switch (by decide) 10

/-- One turn a moment, and chunks of three bytes. -/
def promptTurns : List HashFile.Turn := (List.range 10).map fun moment => ⟨false, moment, none, 3⟩

theorem promptTurns_inOrder : promptTurns.Pairwise fun a b => a.moment ≤ b.moment := by
  unfold promptTurns
  rw [List.pairwise_map]
  exact List.pairwise_lt_range.imp fun h => Nat.le_of_lt h

def promptReader : Schedule := ⟨promptTurns, promptTurns_inOrder⟩

def stoppedReader : Schedule := ⟨[⟨true, 0, none, 0⟩], List.pairwise_singleton _ _⟩

/-- `/a` is read, and the stop comes before anything else. -/
def overwrittenOutcome (row : ManifestRow) : HashOutcome :=
  if row.path = [47, 97] then
    .whole [1, 2, 3, 4, 5] ⟨1, 97, 5, ⟨1, 0⟩, ⟨1, 0⟩, .regular, 0⟩
  else .stopped

theorem overwrittenOutcome_reads (row : ManifestRow) :
    ReadsTo id overwrittenHistory row.path (overwrittenOutcome row) := by
  unfold overwrittenOutcome
  by_cases hpath : row.path = [47, 97]
  · rw [if_pos hpath, hpath]
    exact ⟨promptReader, _, _, rfl, rfl⟩
  · rw [if_neg hpath]
    exact ⟨stoppedReader, .ok .stopped, 0, rfl, rfl⟩

theorem hash_phase_provenance_pair :
    FilledFrom 1 (fun r digest => FromObject unhashedPair r digest ∨
        FromRead id overwrittenHistory unhashedPair r digest) unhashedPair
        (hashPhase 1 overwrittenOutcome (fun _ => false) unhashedPair).2 ∧
      ∃ r ∈ (hashPhase 1 overwrittenOutcome (fun _ => false) unhashedPair).2,
        r.2.hash = .blob [1, 2, 3, 4, 5] :=
  ⟨hash_phase_provenance overwrittenHistory_stamped overwrittenOutcome_reads 1 (fun _ => false)
    unhashedPair, _, List.mem_cons_self, rfl⟩

/-! ## The table over its whole life -/

/-- The row that `record_files` inserts. -/
def ManifestRow.toFile (file : ManifestRow) (nlink : Int) : FileRow where
  path := .text (lossyUtf8 file.path)
  size := .integer (castI64 file.size)
  mtime := file.mtime
  mtimeNsec := file.mtimeNsec
  ctimeSec := file.ctimeSec
  ctimeNsec := file.ctimeNsec
  identityVersion := 0
  device := castI64 file.device
  inode := castI64 file.inode
  nlink := .integer nlink
  hash := .null

/-- `INSERT OR REPLACE INTO file` of a scan, row by row. -/
def insertManifest (scanId : Int) : List ManifestRow → Tx FileTable AppError Unit
  | [], t => (.ok (), t)
  | file :: files, t =>
    match (LinkCount.fromU64 file.nlink).toI64 with
    | .error e => (.error e, t)
    | .ok nlink =>
      insertManifest scanId files
        ((t.filter fun r => !decide (r.1 = scanId ∧ r.2.path = .text (lossyUtf8 file.path))) ++
          [(scanId, file.toFile nlink)])

/-- The transactions that write `file`. -/
inductive TableOp where
  /-- `record_files` -/
  | recordFiles (scanId : Int) (files : List ManifestRow)
  /-- `clear_files`, `purge_scan` -/
  | removeFiles (scanId : Int)
  /-- `inherit_hashes`, `propagate_inherited_hashes`, `record_hashes_verified` -/
  | reuse (scanId : Int) (op : HashOp)

namespace TableOp

def run : TableOp → FileTable → FileTable
  | recordFiles scanId files, t => (Tx.atomically (insertManifest scanId files) t).2
  | removeFiles scanId, t => t.filter fun r => !decide (r.1 = scanId)
  | reuse scanId op, t => (op.run scanId t).2

/-- A checkpoint hands over what finished reads gave for candidates they matched. -/
def Honest (hash : Bytes → Bytes) (h : History) : TableOp → Prop
  | reuse _ (.recordHashesVerified rows) => ∀ row ∈ rows, Handed hash h row
  | _ => True

end TableOp

/-- Any number of these transactions, in any order and over any scans. -/
inductive TableRun (hash : Bytes → Bytes) (h : History) : FileTable → FileTable → Prop
  | refl (t : FileTable) : TableRun hash h t t
  | step {t t' : FileTable} (op : TableOp) (hop : op.Honest hash h) (run : TableRun hash h t t') :
      TableRun hash h t (op.run t')

namespace TableRun

variable {hash : Bytes → Bytes} {h : History} {t t' t'' : FileTable}

theorem trans (h₁ : TableRun hash h t t') (h₂ : TableRun hash h t' t'') :
    TableRun hash h t t'' := by
  induction h₂ with
  | refl => exact h₁
  | step op hop _ ih => exact .step op hop ih

theorem one (op : TableOp) (hop : op.Honest hash h) (t : FileTable) :
    TableRun hash h t (op.run t) :=
  .step op hop (.refl t)

end TableRun

section Tables

variable {hash : Bytes → Bytes} {h : History}

/-- A hash phase is a run of its transactions. -/
theorem hashPhase_run {outcome : ManifestRow → HashOutcome}
    (hreads : ∀ row : ManifestRow, ReadsTo hash h row.path (outcome row)) (scanId : Int)
    (stop : Nat → Bool) (t : FileTable) :
    TableRun hash h t (hashPhase scanId outcome stop t).2 := by
  apply @hashPhase_keeps hash h scanId t (TableRun hash h t) outcome stop hreads
  · intro t' hrun
    rw [← dropResult_snd]
    exact .step (.reuse scanId .propagateInheritedHashes) trivial hrun
  · intro rows t' hrows hrun
    exact .step (.reuse scanId (.recordHashesVerified rows)) hrows hrun
  · exact .refl t

/-- What stands behind a trusted digest: one complete read of an object that had the row's size and
times. -/
def Proven (hash : Bytes → Bytes) (h : History) (f : FileRow) : Prop :=
  ∃ path bytes id, f.hash = .blob bytes ∧ RowTimes f id ∧ DigestOfRead hash h path bytes id

theorem RowTimes.filled {r : Int × FileRow} {id : FileIdentity} (hr : RowTimes r.2 id)
    {digest : Value} : RowTimes (filled r digest).2 id :=
  ⟨hr.size, hr.mtime, hr.mtimeNsec, hr.ctimeSec, hr.ctimeNsec⟩

/-- A proof goes over to a row with the digest, the size and the times. -/
theorem Proven.of_same {f g : FileRow} (hg : Proven hash h g) (hsize : g.size.same f.size = true)
    (htimes : g.mtime = f.mtime ∧ g.mtimeNsec = f.mtimeNsec ∧ g.ctimeSec = f.ctimeSec ∧
      g.ctimeNsec = f.ctimeNsec) {digest : Value} (hdigest : g.hash = digest) (scanId : Int) :
    Proven hash h (filled (scanId, f) digest).2 := by
  obtain ⟨path, bytes, id, hhash, hcarries, hread⟩ := hg
  exact ⟨path, bytes, id, hdigest.symm.trans hhash, (hcarries.of_same hsize htimes).filled, hread⟩

def AllProven (hash : Bytes → Bytes) (h : History) (t : FileTable) : Prop :=
  ∀ r ∈ t, r.2.trusted = true → Proven hash h r.2

theorem reuse_proven (hstamped : h.Stamped) {scanId : Int} {op : HashOp} {t : FileTable}
    (hop : (TableOp.reuse scanId op).Honest hash h) (ht : AllProven hash h t) :
    AllProven hash h (op.run scanId t).2 := by
  intro r' hr' htrusted
  obtain ⟨r, hr, rfl | ⟨hscan, -, digest, -, hsource, rfl⟩⟩ :=
    (callSound scanId t op).written.mem_right hr'
  · exact ht r' hr htrusted
  · cases op with
    | inheritHashes =>
      obtain ⟨prev, hprev, hcross, hdigest⟩ := hsource
      have hproven := ht prev hprev (crossScanSource_trusted hcross).2
      simp only [crossScanSource, Bool.and_eq_true, decide_eq_true_eq] at hcross
      obtain ⟨⟨⟨⟨-, hsize⟩, htimes⟩, -⟩, -⟩ := hcross
      exact hproven.of_same hsize htimes hdigest r.1
    | propagateInheritedHashes =>
      obtain ⟨src, hsrc, hs, hdigest⟩ := hsource
      obtain ⟨-, hsame, hsrcTrusted⟩ := trustedSource_iff.1 hs
      obtain ⟨hsize, htimes⟩ := sameObject_times hsame
      exact (ht src hsrc hsrcTrusted).of_same hsize htimes hdigest r.1
    | recordHashesVerified rows =>
      obtain ⟨g, hg, -, hsame, ⟨hgTrusted, hdigest⟩ | ⟨row, hrow, hv, rfl⟩⟩ := hsource
      · obtain ⟨hsize, htimes⟩ := sameObject_times hsame
        exact (ht g hg hgTrusted).of_same hsize htimes hdigest r.1
      · obtain ⟨id, -, hcarries, hread⟩ := (hop row hrow).read hstamped hv
        exact ⟨row.1.path, row.2, id, rfl, (hcarries.of_same hsame).toRowTimes.filled, hread⟩

/-- A row of a walk has no digest. -/
theorem insertManifest_proven {scanId : Int} :
    ∀ {files : List ManifestRow} {t : FileTable}, AllProven hash h t →
      AllProven hash h (insertManifest scanId files t).2
  | [], _, ht => ht
  | file :: files, t, ht => by
    unfold insertManifest
    split
    · exact ht
    · apply insertManifest_proven
      intro r hr htrusted
      rcases List.mem_append.1 hr with hold | hnew
      · exact ht r (List.mem_of_mem_filter hold) htrusted
      · rw [List.mem_singleton] at hnew
        subst hnew
        exact absurd rfl (trusted_iff.1 htrusted).2

/-- **The step**: no transaction that writes the table loses a proof. -/
theorem TableOp.run_proven (hstamped : h.Stamped) {op : TableOp} (hop : op.Honest hash h)
    {t : FileTable} (ht : AllProven hash h t) : AllProven hash h (op.run t) := by
  cases op with
  | recordFiles scanId files =>
    show AllProven hash h (Tx.atomically (insertManifest scanId files) t).2
    unfold Tx.atomically
    split
    · rename_i heq
      have hinsert := @insertManifest_proven hash h scanId files t ht
      rw [heq] at hinsert
      exact hinsert
    · exact ht
  | removeFiles scanId =>
    intro r hr
    exact ht r (List.mem_of_mem_filter hr)
  | reuse scanId op => exact reuse_proven hstamped hop ht

/-- **Where every digest comes from**: whatever scans are walked, cleared, purged, inherited from,
propagated in and hashed, in any order of transactions and with any changes of the file system
between and during the reads, a digest that is trusted is that of one complete read of an object
that had the row's size and times. -/
theorem digest_lineage (hstamped : h.Stamped) {t t' : FileTable} (ht : AllProven hash h t)
    (hrun : TableRun hash h t t') : AllProven hash h t' := by
  induction hrun with
  | refl => exact ht
  | step op hop _ ih => exact TableOp.run_proven hstamped hop ih

end Tables

/-- The files of a walk in an empty table, and the phase over them. -/
def hashedOnce : FileTable :=
  (hashPhase 1 overwrittenOutcome (fun _ => false)
    ((TableOp.recordFiles 1 [pairCandidate 97, pairCandidate 98]).run [])).2

theorem hashedOnce_run : TableRun id overwrittenHistory [] hashedOnce :=
  (TableRun.one (.recordFiles 1 [pairCandidate 97, pairCandidate 98]) trivial []).trans
    (hashPhase_run overwrittenOutcome_reads 1 (fun _ => false) _)

/-- A second scan meets the files unchanged and inherits, and the first one is purged. -/
def inheritedOnce : FileTable :=
  (TableOp.removeFiles 1).run ((TableOp.reuse 2 .inheritHashes).run
    ((TableOp.recordFiles 2 [pairCandidate 97, pairCandidate 98]).run hashedOnce))

theorem inheritedOnce_run : TableRun id overwrittenHistory [] inheritedOnce :=
  .step (.removeFiles 1) trivial
    (.step (.reuse 2 .inheritHashes) trivial (.step (.recordFiles 2 _) trivial hashedOnce_run))

/-- The digest of the purged scan's read stands behind the row that inherited it. -/
theorem digest_lineage_inherited : AllProven id overwrittenHistory inheritedOnce ∧
    ∃ r ∈ inheritedOnce, r.1 = 2 ∧ r.2.trusted = true ∧ Proven id overwrittenHistory r.2 := by
  have hproven := digest_lineage overwrittenHistory_stamped
    (fun r hr => absurd hr List.not_mem_nil) inheritedOnce_run
  have htrusted : (inheritedOnce.any fun r => decide (r.1 = 2) && r.2.trusted) = true := by rfl
  obtain ⟨r, hr, h⟩ := List.any_eq_true.1 htrusted
  obtain ⟨hscan, htrusted⟩ := Bool.and_eq_true_iff.1 h
  exact ⟨hproven, r, hr, of_decide_eq_true hscan, htrusted, hproven r hr htrusted⟩

end DedupCommando
