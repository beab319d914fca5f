import DedupCommando.Store.HashReuse

/-!
# What a call does to the digests

* `FilledFrom` — no row changes but one that had no digest, and what it receives has a source.
* `Agree`, `conflictingObjects_eq_zero` — the digests known of one object are one.
* `HashOp`, `CallSound`, `callSound` — each of the three calls, from any table.
-/

set_option autoImplicit false

namespace DedupCommando

open Sql (Value)

/-! ## Objects -/

namespace FileRow

theorem sameObject_iff {a b : FileRow} :
    a.sameObject b = true ↔ a.size ≠ .null ∧ a.objectKey = b.objectKey := by
  simp only [sameObject, Bool.and_eq_true, decide_eq_true_eq, Value.same_iff, objectKey]
  constructor
  · rintro ⟨⟨hne, hs⟩, hd, hi, hm, hmn, hc, hcn⟩
    exact ⟨hne, by rw [hd, hi, hs, hm, hmn, hc, hcn]⟩
  · rintro ⟨hne, h⟩
    simp only [EmbeddingLike.apply_eq_iff_eq, Prod.mk.injEq] at h
    obtain ⟨hd, hi, hs, hm, hmn, hc, hcn⟩ := h
    exact ⟨⟨hne, hs⟩, hd, hi, hm, hmn, hc, hcn⟩

theorem sameObject_trans {a b c : FileRow} (h₁ : a.sameObject b = true)
    (h₂ : b.sameObject c = true) : a.sameObject c = true :=
  sameObject_iff.2 ⟨(sameObject_iff.1 h₁).1, (sameObject_iff.1 h₁).2.trans (sameObject_iff.1 h₂).2⟩

end FileRow

@[simp]
theorem filled_hash (r : Int × FileRow) (digest : Value) : (filled r digest).2.hash = digest := rfl

@[simp]
theorem filled_sameObject_left (r : Int × FileRow) (digest : Value) (f : FileRow) :
    (filled r digest).2.sameObject f = r.2.sameObject f := rfl

theorem filled_trusted {r : Int × FileRow} {digest : Value} (h : digest ≠ .null) :
    (filled r digest).2.trusted = true := by
  simp [filled, FileRow.trusted, h]

theorem trusted_iff {f : FileRow} : f.trusted = true ↔ f.identityVersion = 1 ∧ f.hash ≠ .null := by
  simp [FileRow.trusted]

theorem trustedSource_iff {file src : Int × FileRow} : trustedSource file src = true ↔
    src.1 = file.1 ∧ src.2.sameObject file.2 = true ∧ src.2.trusted = true := by
  simp [trustedSource, and_assoc]

theorem crossScanSource_trusted {cur prev : Int × FileRow} (h : crossScanSource cur prev = true) :
    prev.1 ≠ cur.1 ∧ prev.2.trusted = true := by
  simp only [crossScanSource, Bool.and_eq_true, decide_eq_true_eq] at h
  exact ⟨h.2, h.1.2⟩

/-! ## Filling -/

/-- No row but one of the scan without a digest has changed, and only by a digest that has a
source. -/
def FilledFrom (scanId : Int) (source : Int × FileRow → Value → Prop) (t t' : FileTable) : Prop :=
  List.Forall₂ (fun r r' => r' = r ∨ r.1 = scanId ∧ r.2.hash = .null ∧
    ∃ digest, digest ≠ .null ∧ source r digest ∧ r' = filled r digest) t t'

namespace FilledFrom

variable {scanId : Int} {source : Int × FileRow → Value → Prop} {t t' t'' : FileTable}

theorem refl (t : FileTable) : FilledFrom scanId source t t :=
  List.forall₂_same.2 fun _ _ => .inl rfl

/-- One UPDATE that fills the rows it chooses. -/
theorem of_map {chosen : Int × FileRow → Bool} {digest : Int × FileRow → Value}
    (h : ∀ r ∈ t, chosen r = true → r.1 = scanId ∧ r.2.hash = .null ∧ digest r ≠ .null ∧
      source r (digest r)) :
    FilledFrom scanId source t (t.map fun r => if chosen r then filled r (digest r) else r) := by
  unfold FilledFrom
  rw [List.forall₂_map_right_iff, List.forall₂_same]
  intro r hr
  by_cases hc : chosen r = true
  · obtain ⟨h₁, h₂, h₃, h₄⟩ := h r hr hc
    rw [if_pos hc]
    exact .inr ⟨h₁, h₂, digest r, h₃, h₄, rfl⟩
  · rw [if_neg hc]
    exact .inl rfl

theorem trans (h₁ : FilledFrom scanId source t t') (h₂ : FilledFrom scanId source t' t'') :
    FilledFrom scanId source t t'' := by
  unfold FilledFrom at *
  induction h₁ generalizing t'' with
  | nil => exact h₂
  | cons hr _ ih =>
    cases h₂ with
    | cons hr' h₂ =>
      refine .cons ?_ (ih h₂)
      rcases hr with rfl | ⟨hs, hnull, d, hd, hsource, rfl⟩
      · exact hr'
      · rcases hr' with rfl | ⟨-, hfilled, -⟩
        · exact .inr ⟨hs, hnull, d, hd, hsource, rfl⟩
        · exact absurd hfilled hd

/-- A row behind the writes is one of before, with the digest it had or one from a source. -/
theorem mem_right (h : FilledFrom scanId source t t') {r' : Int × FileRow} (hr' : r' ∈ t') :
    ∃ r ∈ t, r' = r ∨ r.1 = scanId ∧ r.2.hash = .null ∧
      ∃ digest, digest ≠ .null ∧ source r digest ∧ r' = filled r digest := by
  unfold FilledFrom at h
  induction h with
  | nil => exact absurd hr' List.not_mem_nil
  | cons hr _ ih =>
    rcases List.mem_cons.1 hr' with rfl | hr'
    · exact ⟨_, List.mem_cons_self, hr⟩
    · obtain ⟨r, hmem, h⟩ := ih hr'
      exact ⟨r, List.mem_cons_of_mem _ hmem, h⟩

end FilledFrom

/-! ## Conflicts -/

/-- The evidence names one digest for each object. -/
def Agree (evidence : List (FileRow × Value)) : Prop :=
  ∀ a ∈ evidence, ∀ b ∈ evidence, a.1.objectKey = b.1.objectKey → a.2 ≠ .null → b.2 ≠ .null →
    a.2.key = b.2.key

theorem Agree.subset {es fs : List (FileRow × Value)} (h : Agree fs) (hsub : ∀ e ∈ es, e ∈ fs) :
    Agree es :=
  fun a ha b hb => h a (hsub a ha) b (hsub b hb)

/-- **What the probes count**: nothing exactly when the evidence agrees. -/
theorem conflictingObjects_eq_zero {evidence : List (FileRow × Value)} :
    conflictingObjects evidence = 0 ↔ Agree evidence := by
  unfold conflictingObjects
  rw [List.countP_eq_zero]
  simp only [decide_eq_true_eq, Sql.countDistinct_le_one, List.mem_map]
  constructor
  · intro h a ha b hb hkey
    obtain ⟨g, hg, hga, hag⟩ :=
      Grouping.exists_group (fun e : FileRow × Value => e.1.objectKey) ha
    have hbg : b ∈ g.2 := by
      rw [(Grouping.mem_groupByKey.1 hg).2]
      exact List.mem_filter.2 ⟨hb, by simp [hga, hkey]⟩
    exact h g hg a.2 ⟨a, hag, rfl⟩ b.2 ⟨b, hbg, rfl⟩
  · rintro h g hg _ ⟨a, ha, rfl⟩ _ ⟨b, hb, rfl⟩
    have hown := (Grouping.mem_groupByKey.1 hg).2
    rw [hown] at ha hb
    have ha' := List.mem_filter.1 ha
    have hb' := List.mem_filter.1 hb
    exact h a ha'.1 b hb'.1 ((of_decide_eq_true ha'.2).trans (of_decide_eq_true hb'.2).symm)

/-- All trusted digests of one object of the scan are one digest. -/
def DigestsAgree (scanId : Int) (t : FileTable) : Prop := Agree (trustedEvidence scanId t)

theorem mem_trustedEvidence {scanId : Int} {t : FileTable} {e : FileRow × Value} :
    e ∈ trustedEvidence scanId t ↔
      ∃ r ∈ t, r.1 = scanId ∧ r.2.trusted = true ∧ (r.2, r.2.hash) = e := by
  simp only [trustedEvidence, List.mem_map, List.mem_filter, Bool.and_eq_true, decide_eq_true_eq,
    and_assoc]

theorem mem_offeredEvidence {scanId : Int} {t : FileTable} {e : FileRow × Value} :
    e ∈ offeredEvidence scanId t ↔ ∃ cur ∈ t, cur.1 = scanId ∧ cur.2.hash = .null ∧
      ∃ prev ∈ t, crossScanSource cur prev = true ∧ (cur.2, prev.2.hash) = e := by
  simp only [offeredEvidence, List.mem_flatMap, List.mem_map, List.mem_filter, decide_eq_true_eq,
    and_assoc]

/-! ## The statements -/

section Statements

variable {scanId : Int} {t : FileTable}

/-- A digest comes from a trusted row of the same object of the scan. -/
def FromObject (t : FileTable) (r : Int × FileRow) (digest : Value) : Prop :=
  ∃ src ∈ t, trustedSource r src = true ∧ src.2.hash = digest

/-- A digest comes from the same pathname with the same temporal identity in another scan. -/
def FromScan (t : FileTable) (r : Int × FileRow) (digest : Value) : Prop :=
  ∃ prev ∈ t, crossScanSource r prev = true ∧ prev.2.hash = digest

theorem propagates_iff {chosen : FileRow → Bool} {r : Int × FileRow} :
    propagates scanId chosen t r = true ↔
      r.1 = scanId ∧ r.2.hash = .null ∧ chosen r.2 = true ∧ ∃ src ∈ t, trustedSource r src = true := by
  simp [propagates, and_assoc]

theorem sourceDigest_from {r : Int × FileRow} (h : ∃ src ∈ t, trustedSource r src = true) :
    FromObject t r (sourceDigest t r) := by
  unfold sourceDigest
  cases hfind : t.find? (trustedSource r) with
  | none =>
    obtain ⟨src, hsrc, hs⟩ := h
    exact absurd hs (List.find?_eq_none.1 hfind src hsrc)
  | some src => exact ⟨src, List.mem_of_find?_eq_some hfind, List.find?_some hfind, rfl⟩

theorem FromObject.ne_null {r : Int × FileRow} {digest : Value} (h : FromObject t r digest) :
    digest ≠ .null := by
  obtain ⟨src, -, hs, rfl⟩ := h
  exact (trusted_iff.1 (trustedSource_iff.1 hs).2.2).2

theorem FromScan.ne_null {r : Int × FileRow} {digest : Value} (h : FromScan t r digest) :
    digest ≠ .null := by
  obtain ⟨prev, -, hs, rfl⟩ := h
  exact (trusted_iff.1 (crossScanSource_trusted hs).2).2

theorem propagateChosen_filled (scanId : Int) (chosen : FileRow → Bool) (t : FileTable) :
    FilledFrom scanId (FromObject t) t (propagateChosen scanId chosen t).2 := by
  refine FilledFrom.of_map fun r _ hr => ?_
  obtain ⟨hscan, hnull, -, hsource⟩ := propagates_iff.1 hr
  have hfrom := sourceDigest_from hsource
  exact ⟨hscan, hnull, hfrom.ne_null, hfrom⟩

theorem inherits_iff {r : Int × FileRow} : inherits scanId t r = true ↔
    r.1 = scanId ∧ r.2.hash = .null ∧ ∃ prev ∈ t, crossScanSource r prev = true := by
  simp [inherits, and_assoc]

theorem offeredDigest_from {r : Int × FileRow} (h : ∃ prev ∈ t, crossScanSource r prev = true) :
    FromScan t r (offeredDigest t r) := by
  obtain ⟨prev, hprev, hs⟩ := h
  have hne : prev.2.hash ≠ .null := FromScan.ne_null ⟨prev, hprev, hs, rfl⟩
  have hmem : offeredDigest t r ∈ (t.filter (crossScanSource r)).map fun prev => prev.2.hash := by
    have hoffered : prev.2.hash ∈ (t.filter (crossScanSource r)).map fun prev => prev.2.hash :=
      List.mem_map.2 ⟨prev, List.mem_filter.2 ⟨hprev, hs⟩, rfl⟩
    exact Sql.minimum_mem (Sql.minimum_ne_null hoffered hne)
  obtain ⟨p, hp, heq⟩ := List.mem_map.1 hmem
  obtain ⟨hp, hps⟩ := List.mem_filter.1 hp
  exact ⟨p, hp, hps, heq⟩

theorem inheritOffered_filled (scanId : Int) (t : FileTable) :
    FilledFrom scanId (FromScan t) t (inheritOffered scanId t).2 := by
  refine FilledFrom.of_map fun r _ hr => ?_
  obtain ⟨hscan, hnull, hsource⟩ := inherits_iff.1 hr
  have hfrom := offeredDigest_from hsource
  exact ⟨hscan, hnull, hfrom.ne_null, hfrom⟩

end Statements

/-! ## Checkpoints -/

section Checkpoint

variable {scanId : Int} {rows : List (ManifestRow × Bytes)} {t₀ t : FileTable}

/-- A digest comes from a row of the same object, which was trusted before the call or is one whose
identity the call has verified. -/
def FromCheckpoint (scanId : Int) (rows : List (ManifestRow × Bytes)) (t : FileTable)
    (r : Int × FileRow) (digest : Value) : Prop :=
  ∃ g ∈ t, g.1 = r.1 ∧ g.2.sameObject r.2 = true ∧
    (g.2.trusted = true ∧ g.2.hash = digest ∨
      ∃ row ∈ rows, verifiedRow scanId row.1 g = true ∧ digest = .blob row.2)

theorem FromCheckpoint.of_same {g r : Int × FileRow} {digest : Value}
    (h : FromCheckpoint scanId rows t g digest) (hscan : g.1 = r.1)
    (hsame : g.2.sameObject r.2 = true) : FromCheckpoint scanId rows t r digest := by
  obtain ⟨src, hsrc, hs, ho, hdigest⟩ := h
  exact ⟨src, hsrc, hs.trans hscan, FileRow.sameObject_trans ho hsame, hdigest⟩

theorem verifiedRow_iff {row : ManifestRow} {r : Int × FileRow} : verifiedRow scanId row r = true ↔
    r.1 = scanId ∧ r.2.path = .text (lossyUtf8 row.path) ∧ r.2.hash = .null ∧
      r.2.size.same (.integer (castI64 row.size)) = true ∧ r.2.mtime = row.mtime ∧
      r.2.mtimeNsec = row.mtimeNsec ∧ r.2.ctimeSec = row.ctimeSec ∧ r.2.ctimeNsec = row.ctimeNsec ∧
      r.2.device = castI64 row.device ∧ r.2.inode = castI64 row.inode := by
  simp [verifiedRow, and_assoc]

theorem verifiedRow_sameObject {row : ManifestRow} {r : Int × FileRow}
    (h : verifiedRow scanId row r = true) : r.2.sameObject r.2 = true :=
  FileRow.sameObject_iff.2 ⟨(Value.same_iff.1 (verifiedRow_iff.1 h).2.2.2.1).1, rfl⟩

theorem commitRow_filled (h : FilledFrom scanId (FromCheckpoint scanId rows t₀) t₀ t)
    {row : ManifestRow × Bytes} (hrow : row ∈ rows) :
    FilledFrom scanId (FromCheckpoint scanId rows t₀) t₀ (commitRow scanId row.1 row.2 t).2 := by
  refine h.trans (FilledFrom.of_map fun r hr hv => ?_)
  obtain ⟨hscan, -, hnull, -⟩ := verifiedRow_iff.1 hv
  refine ⟨hscan, hnull, nofun, ?_⟩
  obtain ⟨g, hg, rfl | ⟨-, -, digest, hdigest, -, rfl⟩⟩ := h.mem_right hr
  · exact ⟨r, hg, rfl, verifiedRow_sameObject hv, .inr ⟨row, hrow, hv, rfl⟩⟩
  · exact absurd hnull hdigest

theorem commitRows_filled :
    ∀ {todo : List (ManifestRow × Bytes)} {persisted : PersistedHashes} {committed : List (Nat × Nat)}
      {t : FileTable}, (∀ row ∈ todo, row ∈ rows) →
      FilledFrom scanId (FromCheckpoint scanId rows t₀) t₀ t →
      FilledFrom scanId (FromCheckpoint scanId rows t₀) t₀
        (commitRows scanId todo (persisted, committed, t)).2.2
  | [], _, _, _, _, h => h
  | row :: todo, _, _, _, hsub, h => by
    have hstep := commitRow_filled h (hsub row List.mem_cons_self)
    have hrest := fun row' h' => hsub row' (List.mem_cons_of_mem row h')
    unfold commitRows
    simp only
    split
    · exact commitRows_filled hrest hstep
    · exact commitRows_filled hrest hstep

theorem propagateChosen_from (h : FilledFrom scanId (FromCheckpoint scanId rows t₀) t₀ t)
    (chosen : FileRow → Bool) :
    FilledFrom scanId (FromCheckpoint scanId rows t₀) t₀ (propagateChosen scanId chosen t).2 := by
  refine h.trans (FilledFrom.of_map fun r _ hr => ?_)
  obtain ⟨hscan, hnull, -, hsource⟩ := propagates_iff.1 hr
  have hfrom := sourceDigest_from hsource
  refine ⟨hscan, hnull, hfrom.ne_null, ?_⟩
  obtain ⟨src, hsrc, hs, hdigest⟩ := hfrom
  obtain ⟨hsame₁, hsame₂, htrusted⟩ := trustedSource_iff.1 hs
  rw [← hdigest]
  obtain ⟨g, hg, rfl | ⟨-, -, d, -, hd, rfl⟩⟩ := h.mem_right hsrc
  · exact ⟨src, hg, hsame₁, hsame₂, .inl ⟨htrusted, rfl⟩⟩
  · exact hd.of_same hsame₁ hsame₂

theorem propagateCommittedObjects_from :
    ∀ {objects seen : List (Nat × Nat)} {n : Nat} {t : FileTable},
      FilledFrom scanId (FromCheckpoint scanId rows t₀) t₀ t →
      FilledFrom scanId (FromCheckpoint scanId rows t₀) t₀
        (propagateCommittedObjects scanId seen objects n t).2
  | [], _, _, _, h => h
  | object :: objects, seen, n, t, h => by
    unfold propagateCommittedObjects
    split
    · exact propagateCommittedObjects_from h
    · exact propagateCommittedObjects_from (propagateChosen_from h _)

theorem recordHashesVerified_snd (rows : List (ManifestRow × Bytes)) (t : FileTable) :
    (recordHashesVerified scanId rows t).2 =
      (propagateCommittedObjects scanId [] (commitRows scanId rows (⟨0, 0, 0⟩, [], t)).2.1 0
        (commitRows scanId rows (⟨0, 0, 0⟩, [], t)).2.2).2 := rfl

/-- **What a checkpoint writes**: digests it was handed, to rows whose identity it verified, and the
digests of trusted rows to other rows of their objects. -/
theorem recordHashesVerified_filled (rows : List (ManifestRow × Bytes)) (t : FileTable) :
    FilledFrom scanId (FromCheckpoint scanId rows t) t (recordHashesVerified scanId rows t).2 := by
  rw [recordHashesVerified_snd]
  exact propagateCommittedObjects_from (commitRows_filled (fun _ h => h) (FilledFrom.refl t))

/-- The row of a checkpoint that verifies a manifest row first. -/
def firstVerifying (scanId : Int) (rows : List (ManifestRow × Bytes)) (r : Int × FileRow) :
    Option (ManifestRow × Bytes) := rows.find? fun row => verifiedRow scanId row.1 r

/-- A row whose identity a checkpoint verifies receives the digest that was handed for it, of several
the first. -/
def HandedOwn (scanId : Int) (rows : List (ManifestRow × Bytes)) (t t' : FileTable) : Prop :=
  List.Forall₂ (fun r r' => ∀ row, firstVerifying scanId rows r = some row →
    r' = filled r (.blob row.2)) t t'

/-- What a row is behind the commits of a checkpoint. -/
def committedRow (scanId : Int) (rows : List (ManifestRow × Bytes)) (r : Int × FileRow) :
    Int × FileRow :=
  match firstVerifying scanId rows r with
  | some row => filled r (.blob row.2)
  | none => r

theorem firstVerifying_filled (rows : List (ManifestRow × Bytes)) (r : Int × FileRow) (digest : Bytes) :
    firstVerifying scanId rows (filled r (.blob digest)) = none := by
  refine List.find?_eq_none.2 fun row _ h => ?_
  cases (verifiedRow_iff.1 h).2.2.1

theorem commitRows_snd : ∀ (rows : List (ManifestRow × Bytes)) (persisted : PersistedHashes)
    (committed : List (Nat × Nat)) (t : FileTable),
    (commitRows scanId rows (persisted, committed, t)).2.2 = t.map (committedRow scanId rows)
  | [], _, _, t => (List.map_id t).symm
  | row :: rows, persisted, committed, t => by
    have hstep : (commitRow scanId row.1 row.2 t).2.map (committedRow scanId rows) =
        t.map (committedRow scanId (row :: rows)) := by
      unfold commitRow
      rw [List.map_map]
      refine List.map_congr_left fun r _ => ?_
      simp only [Function.comp_apply]
      by_cases hv : verifiedRow scanId row.1 r = true
      · have hfirst : firstVerifying scanId (row :: rows) r = some row :=
          List.find?_cons_of_pos hv
        -- once it is filled no later row of the checkpoint verifies it
        rw [if_pos hv, committedRow, firstVerifying_filled, committedRow, hfirst]
      · have hlater : firstVerifying scanId (row :: rows) r = firstVerifying scanId rows r :=
          List.find?_cons_of_neg hv
        rw [if_neg hv, committedRow, committedRow, hlater]
    unfold commitRows
    simp only
    split
    · rw [commitRows_snd rows, hstep]
    · rw [commitRows_snd rows, hstep]

/-- **A checkpoint writes to each row it verifies the digest that was handed for it.** -/
theorem recordHashesVerified_handed (rows : List (ManifestRow × Bytes)) (t : FileTable) :
    HandedOwn scanId rows t (recordHashesVerified scanId rows t).2 := by
  rw [recordHashesVerified_snd, commitRows_snd]
  let committed := t.map (committedRow scanId rows)
  have hspread : FilledFrom scanId (FromCheckpoint scanId [] committed) committed
      (propagateCommittedObjects scanId [] (commitRows scanId rows (⟨0, 0, 0⟩, [], t)).2.1 0
        committed).2 := propagateCommittedObjects_from (FilledFrom.refl committed)
  unfold FilledFrom at hspread
  rw [List.forall₂_map_left_iff] at hspread
  refine hspread.imp fun {r r'} h row hrow => ?_
  have hcommitted : committedRow scanId rows r = filled r (.blob row.2) := by
    rw [committedRow, hrow]
  rw [hcommitted] at h
  rcases h with rfl | ⟨-, hnull, -⟩
  · rfl
  · cases hnull

end Checkpoint

/-! ## Agreement -/

section Agreement

variable {scanId : Int} {t t' : FileTable} {evidence : List (FileRow × Value)}

/-- Where everything that is written is part of evidence that agrees, the trusted digests agree
behind the writes. -/
theorem digestsAgree_of_filled {source : Int × FileRow → Value → Prop}
    (h : FilledFrom scanId source t t') (hagree : Agree evidence)
    (htrusted : ∀ e ∈ trustedEvidence scanId t, e ∈ evidence)
    (hsource : ∀ r ∈ t, r.1 = scanId → r.2.hash = .null → ∀ digest, source r digest →
      ∃ e ∈ evidence, e.1.objectKey = r.2.objectKey ∧ e.2 = digest) :
    DigestsAgree scanId t' := by
  have hknown : ∀ e ∈ trustedEvidence scanId t', ∃ e' ∈ evidence,
      e'.1.objectKey = e.1.objectKey ∧ e'.2 = e.2 := by
    intro e he
    obtain ⟨r', hr', hscan, htrust, rfl⟩ := mem_trustedEvidence.1 he
    obtain ⟨r, hr, rfl | ⟨hs, hnull, digest, -, hd, rfl⟩⟩ := h.mem_right hr'
    · exact ⟨_, htrusted _ (mem_trustedEvidence.2 ⟨r', hr, hscan, htrust, rfl⟩), rfl, rfl⟩
    · obtain ⟨e', he', hkey, hdigest⟩ := hsource r hr hs hnull digest hd
      exact ⟨e', he', hkey, hdigest⟩
  intro a ha b hb hkey hane hbne
  obtain ⟨a', ha', hak, had⟩ := hknown a ha
  obtain ⟨b', hb', hbk, hbd⟩ := hknown b hb
  have := hagree a' ha' b' hb' (hak.trans (hkey.trans hbk.symm)) (had ▸ hane) (hbd ▸ hbne)
  rwa [had, hbd] at this

/-- What a checkpoint is handed for the rows whose identity it verifies. -/
def handedEvidence (scanId : Int) (rows : List (ManifestRow × Bytes)) (t : FileTable) :
    List (FileRow × Value) :=
  rows.flatMap fun row => (t.filter (verifiedRow scanId row.1)).map fun g => (g.2, .blob row.2)

theorem mem_handedEvidence {rows : List (ManifestRow × Bytes)} {e : FileRow × Value} :
    e ∈ handedEvidence scanId rows t ↔
      ∃ row ∈ rows, ∃ g ∈ t, verifiedRow scanId row.1 g = true ∧ (g.2, .blob row.2) = e := by
  simp only [handedEvidence, List.mem_flatMap, List.mem_map, List.mem_filter, and_assoc]

end Agreement

/-! ## The three calls -/

/-- A call that reuses or records digests. -/
inductive HashOp where
  | inheritHashes
  | propagateInheritedHashes
  | recordHashesVerified (rows : List (ManifestRow × Bytes))

namespace HashOp

def run (scanId : Int) : HashOp → Tx FileTable String Unit
  | inheritHashes => dropResult (DedupCommando.inheritHashes scanId)
  | propagateInheritedHashes => dropResult (DedupCommando.propagateInheritedHashes scanId)
  | recordHashesVerified rows => dropResult (DedupCommando.recordHashesVerified scanId rows)

/-- Where a digest that the call writes comes from. -/
def Source (scanId : Int) (t : FileTable) : HashOp → Int × FileRow → Value → Prop
  | inheritHashes => FromScan t
  | propagateInheritedHashes => FromObject t
  | recordHashesVerified rows => FromCheckpoint scanId rows t

/-- The digests that the call has to do with, each with a row of its object. -/
def evidence (scanId : Int) (t : FileTable) : HashOp → List (FileRow × Value)
  | inheritHashes => trustedEvidence scanId t ++ offeredEvidence scanId t
  | propagateInheritedHashes => trustedEvidence scanId t
  | recordHashesVerified rows => trustedEvidence scanId t ++ handedEvidence scanId rows t

/-- Whether the call probes for conflicts; a checkpoint has its identity check alone. -/
def Probes : HashOp → Prop
  | recordHashesVerified _ => False
  | _ => True

end HashOp

/-- What one call promises from any table. -/
structure CallSound (scanId : Int) (op : HashOp) (t : FileTable) : Prop where
  /-- A digest is written to a row without one, and has a source. -/
  written : FilledFrom scanId (op.Source scanId t) t (op.run scanId t).2
  /-- What a checkpoint is handed for a row whose identity it verifies is what that row receives. -/
  handed : ∀ rows, op = .recordHashesVerified rows → HandedOwn scanId rows t (op.run scanId t).2
  /-- A refused call changes nothing. -/
  unchanged : ∀ e, (op.run scanId t).1 = .error e → (op.run scanId t).2 = t
  /-- A call that probes refuses exactly when two digests disagree about one object. -/
  refused : op.Probes → ((∃ e, (op.run scanId t).1 = .error e) ↔ ¬ Agree (op.evidence scanId t))
  /-- Behind a successful call the trusted digests agree; where it has not probed, as long as what it
  was handed agrees with them. -/
  agreed : (op.run scanId t).1 = .ok () → op.Probes ∨ Agree (op.evidence scanId t) →
    DigestsAgree scanId (op.run scanId t).2

section Calls

variable (scanId : Int) (t : FileTable)

/-- The propagation pass: refused on a conflict, and the statement otherwise. -/
theorem run_propagate :
    (∃ e, HashOp.propagateInheritedHashes.run scanId t = (.error e, t) ∧
        ¬ DigestsAgree scanId t) ∨
      HashOp.propagateInheritedHashes.run scanId t =
          (.ok (), (propagateTrustedDigests scanId t).2) ∧ DigestsAgree scanId t := by
  have hcount : conflictingDigestObjects scanId t = 0 ↔ DigestsAgree scanId t :=
    conflictingObjects_eq_zero
  rw [← hcount]
  unfold HashOp.run dropResult DedupCommando.propagateInheritedHashes Tx.atomically
  by_cases hc : 0 < conflictingDigestObjects scanId t
  · exact .inl ⟨_, by simp only [if_pos hc]; rfl, by omega⟩
  · exact .inr ⟨by simp only [if_neg hc], by omega⟩

/-- The inheritance: refused on a conflict, and the statement otherwise. -/
theorem run_inherit :
    (∃ e, HashOp.inheritHashes.run scanId t = (.error e, t) ∧
        ¬ Agree (trustedEvidence scanId t ++ offeredEvidence scanId t)) ∨
      HashOp.inheritHashes.run scanId t = (.ok (), (inheritOffered scanId t).2) ∧
        Agree (trustedEvidence scanId t ++ offeredEvidence scanId t) := by
  have hcount : conflictingInheritanceObjects scanId t = 0 ↔
      Agree (trustedEvidence scanId t ++ offeredEvidence scanId t) := conflictingObjects_eq_zero
  rw [← hcount]
  unfold HashOp.run dropResult DedupCommando.inheritHashes Tx.atomically
  by_cases hc : 0 < conflictingInheritanceObjects scanId t
  · exact .inl ⟨_, by simp only [if_pos hc]; rfl, by omega⟩
  · exact .inr ⟨by simp only [if_neg hc], by omega⟩

theorem run_checkpoint (rows : List (ManifestRow × Bytes)) :
    (HashOp.recordHashesVerified rows).run scanId t =
      (.ok (), (recordHashesVerified scanId rows t).2) := rfl

theorem callSound_propagate : CallSound scanId .propagateInheritedHashes t := by
  have hfilled : FilledFrom scanId (FromObject t) t (propagateTrustedDigests scanId t).2 :=
    propagateChosen_filled scanId _ t
  rcases run_propagate scanId t with ⟨e, hrun, hconflict⟩ | ⟨hrun, hagree⟩
  · exact
      { written := by rw [hrun]; exact FilledFrom.refl t
        handed := nofun
        unchanged := fun _ _ => by rw [hrun]
        refused := fun _ => by rw [hrun]; exact ⟨fun _ => hconflict, fun _ => ⟨e, rfl⟩⟩
        agreed := fun h => by rw [hrun] at h; cases h }
  · refine
      { written := by rw [hrun]; exact hfilled
        handed := nofun
        unchanged := fun e h => by rw [hrun] at h; cases h
        refused := fun _ => by rw [hrun]; exact ⟨nofun, fun h => absurd hagree h⟩
        agreed := fun _ _ => ?_ }
    rw [hrun]
    refine digestsAgree_of_filled hfilled hagree (fun _ h => h) fun r _ hscan _ digest hd => ?_
    obtain ⟨src, hsrc, hs, rfl⟩ := hd
    obtain ⟨hsame, hobject, htrusted⟩ := trustedSource_iff.1 hs
    exact ⟨_, mem_trustedEvidence.2 ⟨src, hsrc, hsame.trans hscan, htrusted, rfl⟩,
      (FileRow.sameObject_iff.1 hobject).2, rfl⟩

theorem callSound_inherit : CallSound scanId .inheritHashes t := by
  have hfilled := inheritOffered_filled scanId t
  rcases run_inherit scanId t with ⟨e, hrun, hconflict⟩ | ⟨hrun, hagree⟩
  · exact
      { written := by rw [hrun]; exact FilledFrom.refl t
        handed := nofun
        unchanged := fun _ _ => by rw [hrun]
        refused := fun _ => by rw [hrun]; exact ⟨fun _ => hconflict, fun _ => ⟨e, rfl⟩⟩
        agreed := fun h => by rw [hrun] at h; cases h }
  · refine
      { written := by rw [hrun]; exact hfilled
        handed := nofun
        unchanged := fun e h => by rw [hrun] at h; cases h
        refused := fun _ => by rw [hrun]; exact ⟨nofun, fun h => absurd hagree h⟩
        agreed := fun _ _ => ?_ }
    rw [hrun]
    refine digestsAgree_of_filled hfilled hagree (fun _ h => List.mem_append_left _ h)
      fun r hr hscan hnull digest hd => ?_
    obtain ⟨prev, hprev, hs, rfl⟩ := hd
    exact ⟨_, List.mem_append_right _
      (mem_offeredEvidence.2 ⟨r, hr, hscan, hnull, prev, hprev, hs, rfl⟩), rfl, rfl⟩

theorem callSound_checkpoint (rows : List (ManifestRow × Bytes)) :
    CallSound scanId (.recordHashesVerified rows) t where
  written := recordHashesVerified_filled rows t
  handed rows' h := by cases h; exact recordHashesVerified_handed rows t
  unchanged e h := by rw [run_checkpoint] at h; cases h
  refused h := h.elim
  agreed _ h := by
    rw [run_checkpoint]
    refine digestsAgree_of_filled (recordHashesVerified_filled rows t) (h.resolve_left id)
      (fun _ h => List.mem_append_left _ h) fun r _ hscan _ digest hd => ?_
    obtain ⟨g, hg, hgscan, hobject, ⟨htrusted, rfl⟩ | ⟨row, hrow, hv, rfl⟩⟩ := hd
    · exact ⟨_, List.mem_append_left _
        (mem_trustedEvidence.2 ⟨g, hg, hgscan.trans hscan, htrusted, rfl⟩),
        (FileRow.sameObject_iff.1 hobject).2, rfl⟩
    · exact ⟨_, List.mem_append_right _ (mem_handedEvidence.2 ⟨row, hrow, g, hg, hv, rfl⟩),
        (FileRow.sameObject_iff.1 hobject).2, rfl⟩

/-- **What every call promises**, whatever the rows it meets. -/
theorem callSound (op : HashOp) : CallSound scanId op t := by
  cases op with
  | inheritHashes => exact callSound_inherit scanId t
  | propagateInheritedHashes => exact callSound_propagate scanId t
  | recordHashesVerified rows => exact callSound_checkpoint scanId t rows

end Calls

end DedupCommando
