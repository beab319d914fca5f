import DedupCommando.Lib.Spread
import DedupCommando.Store.HashReuseSound

/-!
# Propagation by object and by scan

A hashing session with a digest to know for each object fills rows and never changes one, so its
states are sets of filled rows and its statements are steps toward one closure.

* `Consistent` — everything that the session meets names one digest for each object.
* `paint` — the table with a set of rows filled.
* `propagateChosen_paint`, `inheritOffered_paint`, `commitRows_paint` — the statements on sets.
* `session_spreads` — the propagation of each checkpoint reaches what one pass at the end reaches.
-/

set_option autoImplicit false

namespace DedupCommando

open Sql (Value)

/-- The key of one physical object. -/
abbrev ObjectKey := ℤ ×ₗ ℤ ×ₗ (ℕ ×ₗ ℚ ×ₗ Bytes) ×ₗ ℤ ×ₗ ℤ ×ₗ ℤ ×ₗ ℤ

/-- The digests that a session meets, in the scan, in what other scans offer and in what its
checkpoints are handed, are one for each object. -/
structure Consistent (digest : ObjectKey → Value) (scanId : Int) (t : FileTable)
    (session : List HashOp) : Prop where
  ne_null : ∀ k, digest k ≠ .null
  trusted : ∀ r ∈ t, r.1 = scanId → r.2.trusted = true → r.2.hash = digest r.2.objectKey
  offered : ∀ r ∈ t, r.1 = scanId → r.2.hash = .null → ∀ prev ∈ t, crossScanSource r prev = true →
    prev.2.hash = digest r.2.objectKey
  handed : ∀ rows, .recordHashesVerified rows ∈ session → ∀ row ∈ rows, ∀ r ∈ t,
    verifiedRow scanId row.1 r = true → .blob row.2 = digest r.2.objectKey

/-! ## Tables as sets of filled rows -/

section Paint

variable (digest : ObjectKey → Value) (scanId : Int) (t : FileTable)

/-- The rows of the scan that have no digest. -/
def blanks : Set (Int × FileRow) := {r | r ∈ t ∧ r.1 = scanId ∧ r.2.hash = .null}

/-- The rows of the scan that are trusted from the beginning. -/
def sources : Set (Int × FileRow) := {r | r ∈ t ∧ r.1 = scanId ∧ r.2.trusted = true}

/-- Two rows of one object. -/
def Alike (a b : Int × FileRow) : Prop := a.2.sameObject b.2 = true

theorem Alike.trans {a b c : Int × FileRow} (h₁ : Alike a b) (h₂ : Alike b c) : Alike a c :=
  FileRow.sameObject_trans h₁ h₂

open Classical in
/-- The table with some of its blank rows filled. -/
noncomputable def paint (marked : Set (Int × FileRow)) : FileTable :=
  t.map fun r => if r ∈ blanks scanId t ∧ r ∈ marked then filled r (digest r.2.objectKey) else r

/-- What one pass of the scan reaches. -/
noncomputable def spreadOf : ClosureOperator (Set (Int × FileRow)) :=
  Spread.spread (blanks scanId t) (sources scanId t) Alike Alike.trans

variable {digest scanId t}

theorem blank_not_trusted {r : Int × FileRow} (h : r.2.hash = .null) : r.2.trusted = false := by
  simp [FileRow.trusted, h]

theorem paint_empty : paint digest scanId t ∅ = t := by
  unfold paint
  simp

/-- A row of the painted table: one that is filled, or one as it was. -/
theorem mem_paint {marked : Set (Int × FileRow)} {r' : Int × FileRow} :
    r' ∈ paint digest scanId t marked ↔
      (∃ r ∈ blanks scanId t, r ∈ marked ∧ r' = filled r (digest r.2.objectKey)) ∨
        r' ∈ t ∧ ¬ (r' ∈ blanks scanId t ∧ r' ∈ marked) := by
  unfold paint
  rw [List.mem_map]
  constructor
  · rintro ⟨r, hr, rfl⟩
    split
    · rename_i h; exact .inl ⟨r, h.1, h.2, rfl⟩
    · rename_i h; exact .inr ⟨hr, h⟩
  · rintro (⟨r, hb, hm, rfl⟩ | ⟨hr, h⟩)
    · exact ⟨r, hb.1, by rw [if_pos ⟨hb, hm⟩]⟩
    · exact ⟨r', hr, by rw [if_neg h]⟩

/-- An UPDATE of a painted table paints the blank rows it chooses. -/
theorem map_paint {marked chosen : Set (Int × FileRow)} {picks : Int × FileRow → Bool}
    {value : Int × FileRow → Value}
    (hpicks : ∀ r ∈ blanks scanId t, r ∉ marked → (picks r = true ↔ r ∈ chosen))
    (hnull : ∀ r, picks r = true → r.1 = scanId ∧ r.2.hash = .null)
    (hne : ∀ k, digest k ≠ .null)
    (hvalue : ∀ r ∈ blanks scanId t, r ∉ marked → picks r = true → value r = digest r.2.objectKey) :
    ((paint digest scanId t marked).map fun r => if picks r then filled r (value r) else r) =
      paint digest scanId t (marked ∪ chosen) := by
  unfold paint
  rw [List.map_map]
  refine List.map_congr_left fun r hr => ?_
  simp only [Function.comp_apply]
  by_cases hb : r ∈ blanks scanId t
  · by_cases hm : r ∈ marked
    · have hkeep : picks (filled r (digest r.2.objectKey)) = false :=
        Bool.eq_false_iff.2 fun h => hne _ (hnull _ h).2
      simp [hb, hm, hkeep]
    · by_cases hp : picks r = true
      · simp [hb, hm, hp, (hpicks r hb hm).1 hp, hvalue r hb hm hp]
      · have hc : r ∉ chosen := fun h => hp ((hpicks r hb hm).2 h)
        simp [hm, hp, hc]
  · have hkeep : picks r = false :=
      Bool.eq_false_iff.2 fun h => hb ⟨hr, hnull r h⟩
    simp [hb, hkeep]

end Paint

/-! ## The statements on sets of rows -/

section Steps

variable {digest : ObjectKey → Value} {scanId : Int} {t : FileTable} {session : List HashOp}
variable {marked : Set (Int × FileRow)}

/-- The rows of the scan that a pass over some of them reaches. -/
def reachedOf (scanId : Int) (t : FileTable) (marked : Set (Int × FileRow)) : Set (Int × FileRow) :=
  Spread.reached (blanks scanId t) (sources scanId t) Alike marked

theorem source_paint (hc : Consistent digest scanId t session) (hsub : marked ⊆ blanks scanId t)
    {r : Int × FileRow} (hr : r ∈ blanks scanId t) :
    (∃ src ∈ paint digest scanId t marked, trustedSource r src = true) ↔
      r ∈ reachedOf scanId t marked := by
  constructor
  · rintro ⟨src, hsrc, hs⟩
    obtain ⟨hscan, hsame, htrusted⟩ := trustedSource_iff.1 hs
    refine ⟨hr, ?_⟩
    rcases mem_paint.1 hsrc with ⟨b, -, hm, rfl⟩ | ⟨hmem, -⟩
    · exact ⟨b, .inr hm, hsame⟩
    · exact ⟨src, .inl ⟨hmem, hscan.trans hr.2.1, htrusted⟩, hsame⟩
  · rintro ⟨-, b, hb | hb, hsame⟩
    · refine ⟨b, mem_paint.2 (.inr ⟨hb.1, fun h => ?_⟩),
        trustedSource_iff.2 ⟨hb.2.1.trans hr.2.1.symm, hsame, hb.2.2⟩⟩
      have := blank_not_trusted h.1.2.2
      rw [hb.2.2] at this
      cases this
    · exact ⟨_, mem_paint.2 (.inl ⟨b, hsub hb, hb, rfl⟩), trustedSource_iff.2
        ⟨(hsub hb).2.1.trans hr.2.1.symm, hsame, filled_trusted (hc.ne_null _)⟩⟩

/-- A source of a painted table has the digest of its object. -/
theorem fromObject_paint (hc : Consistent digest scanId t session) {r : Int × FileRow}
    (hr : r ∈ blanks scanId t) {v : Value} (h : FromObject (paint digest scanId t marked) r v) :
    v = digest r.2.objectKey := by
  obtain ⟨src, hsrc, hs, rfl⟩ := h
  obtain ⟨hscan, hsame, htrusted⟩ := trustedSource_iff.1 hs
  rw [← (FileRow.sameObject_iff.1 hsame).2]
  rcases mem_paint.1 hsrc with ⟨b, -, -, rfl⟩ | ⟨hmem, -⟩
  · rfl
  · exact hc.trusted src hmem (hscan.trans hr.2.1) htrusted

theorem propagateChosen_paint (hc : Consistent digest scanId t session)
    (hsub : marked ⊆ blanks scanId t) (chosen : FileRow → Bool) :
    (propagateChosen scanId chosen (paint digest scanId t marked)).2 =
      paint digest scanId t (marked ∪ {r | chosen r.2 = true ∧ r ∈ reachedOf scanId t marked}) := by
  refine map_paint (fun r hr _ => ?_) (fun r h => ?_) hc.ne_null fun r hr _ h => ?_
  · rw [propagates_iff, source_paint hc hsub hr]
    exact ⟨fun h => h.2.2, fun h => ⟨hr.2.1, hr.2.2, h⟩⟩
  · exact ⟨(propagates_iff.1 h).1, (propagates_iff.1 h).2.1⟩
  · exact fromObject_paint hc hr (sourceDigest_from (propagates_iff.1 h).2.2.2)

/-- The pass over the scan closes the set. -/
theorem propagateTrustedDigests_paint (hc : Consistent digest scanId t session)
    (hsub : marked ⊆ blanks scanId t) :
    (propagateTrustedDigests scanId (paint digest scanId t marked)).2 =
      paint digest scanId t (spreadOf scanId t marked) := by
  refine (propagateChosen_paint hc hsub _).trans (congrArg _ (Set.ext fun r => ?_))
  simp only [Set.mem_union, Set.mem_ofPred_eq, true_and]
  exact Spread.mem_spread.symm

/-- The rows that other scans offer a digest for. -/
def offeredRows (scanId : Int) (t : FileTable) : Set (Int × FileRow) :=
  {r | r ∈ blanks scanId t ∧ ∃ prev ∈ t, crossScanSource r prev = true}

/-- Painting touches no row that another scan could offer. -/
theorem offer_paint {r prev : Int × FileRow} (hr : r ∈ blanks scanId t)
    (hs : crossScanSource r prev = true) : prev ∈ paint digest scanId t marked ↔ prev ∈ t := by
  have hscan : prev.1 ≠ scanId := hr.2.1 ▸ (crossScanSource_trusted hs).1
  rw [mem_paint]
  constructor
  · rintro (⟨b, hb, -, rfl⟩ | ⟨h, -⟩)
    · exact absurd hb.2.1 hscan
    · exact h
  · exact fun h => .inr ⟨h, fun hb => hscan hb.1.2.1⟩

theorem inheritOffered_paint (hc : Consistent digest scanId t session) :
    (inheritOffered scanId (paint digest scanId t marked)).2 =
      paint digest scanId t (marked ∪ offeredRows scanId t) := by
  refine map_paint (fun r hr _ => ?_) (fun r h => ?_) hc.ne_null fun r hr _ h => ?_
  · rw [inherits_iff]
    constructor
    · rintro ⟨-, -, prev, hprev, hs⟩
      exact ⟨hr, prev, (offer_paint hr hs).1 hprev, hs⟩
    · rintro ⟨-, prev, hprev, hs⟩
      exact ⟨hr.2.1, hr.2.2, prev, (offer_paint hr hs).2 hprev, hs⟩
  · exact ⟨(inherits_iff.1 h).1, (inherits_iff.1 h).2.1⟩
  · obtain ⟨prev, hprev, hs, hdigest⟩ := offeredDigest_from (inherits_iff.1 h).2.2
    rw [← hdigest]
    exact hc.offered r hr.1 hr.2.1 hr.2.2 prev ((offer_paint hr hs).1 hprev) hs

/-- The rows whose identity one row of a checkpoint verifies. -/
def verifiedRows (scanId : Int) (t : FileTable) (rows : List (ManifestRow × Bytes)) :
    Set (Int × FileRow) :=
  {r | r ∈ t ∧ ∃ row ∈ rows, verifiedRow scanId row.1 r = true}

theorem verifiedRows_blank {rows : List (ManifestRow × Bytes)} :
    verifiedRows scanId t rows ⊆ blanks scanId t := by
  rintro r ⟨hr, row, -, hv⟩
  exact ⟨hr, (verifiedRow_iff.1 hv).1, (verifiedRow_iff.1 hv).2.2.1⟩

theorem commitRow_paint (hc : Consistent digest scanId t session)
    {rows : List (ManifestRow × Bytes)} (hrows : .recordHashesVerified rows ∈ session)
    {row : ManifestRow × Bytes} (hrow : row ∈ rows) :
    (commitRow scanId row.1 row.2 (paint digest scanId t marked)).2 =
      paint digest scanId t (marked ∪ verifiedRows scanId t [row]) := by
  refine map_paint (fun r hr _ => ?_) (fun r h => ?_) hc.ne_null
    fun r hr _ h => hc.handed rows hrows row hrow r hr.1 h
  · simp only [verifiedRows, Set.mem_ofPred_eq, List.mem_singleton, exists_eq_left, hr.1, true_and]
  · exact ⟨(verifiedRow_iff.1 h).1, (verifiedRow_iff.1 h).2.2.1⟩

theorem commitRows_paint (hc : Consistent digest scanId t session)
    {rows : List (ManifestRow × Bytes)} (hrows : .recordHashesVerified rows ∈ session) :
    ∀ (todo : List (ManifestRow × Bytes)) (persisted : PersistedHashes)
      (committed : List (Nat × Nat)) (marked : Set (Int × FileRow)), (∀ row ∈ todo, row ∈ rows) →
      ∃ committed', (commitRows scanId todo (persisted, committed, paint digest scanId t marked)).2 =
          (committed', paint digest scanId t (marked ∪ verifiedRows scanId t todo)) ∧
        (∀ o ∈ committed, o ∈ committed') ∧
        ∀ r ∈ verifiedRows scanId t todo, r ∉ marked →
          ∃ o ∈ committed', r.2.device = castI64 o.1 ∧ r.2.inode = castI64 o.2
  | [], persisted, committed, marked, _ => by
    have hnone : verifiedRows scanId t [] = ∅ := by simp [verifiedRows]
    refine ⟨committed, ?_, fun _ h => h, fun r hr => ?_⟩
    · rw [hnone, Set.union_empty]
      rfl
    · rw [hnone] at hr
      exact hr.elim
  | row :: todo, persisted, committed, marked, hsub => by
    have hstep : (commitRow scanId row.1 row.2 (paint digest scanId t marked)).2 =
        paint digest scanId t (marked ∪ verifiedRows scanId t [row]) :=
      commitRow_paint hc hrows (hsub row List.mem_cons_self)
    have hrest := fun row' h' => hsub row' (List.mem_cons_of_mem row h')
    have hsplit : verifiedRows scanId t (row :: todo) =
        verifiedRows scanId t [row] ∪ verifiedRows scanId t todo := by
      ext r
      simp only [verifiedRows, Set.mem_ofPred_eq, Set.mem_union, List.mem_cons, List.not_mem_nil,
        or_false, exists_eq_left, exists_eq_or_imp, and_or_left]
    -- A row that this update fills makes its object one of those committed.
    have hown : ∀ r ∈ verifiedRows scanId t [row], r ∉ marked →
        0 < (commitRow scanId row.1 row.2 (paint digest scanId t marked)).1 ∧
          r.2.device = castI64 row.1.device ∧ r.2.inode = castI64 row.1.inode := by
      rintro r ⟨hr, row', hrow', hv⟩ hm
      rw [List.mem_singleton] at hrow'
      subst hrow'
      have hmem : r ∈ paint digest scanId t marked := mem_paint.2 (.inr ⟨hr, fun h => hm h.2⟩)
      exact ⟨List.countP_pos_iff.2 ⟨r, hmem, hv⟩, (verifiedRow_iff.1 hv).2.2.2.2.2.2.2.2⟩
    unfold commitRows
    simp only
    rw [hsplit, ← Set.union_assoc, hstep]
    by_cases hpos : 0 < (commitRow scanId row.1 row.2 (paint digest scanId t marked)).1
    · rw [if_pos hpos]
      obtain ⟨committed', heq, hkeep, hcover⟩ := commitRows_paint hc hrows todo
        { files := persisted.files + (commitRow scanId row.1 row.2 (paint digest scanId t marked)).1
          bytes := (persisted.bytes + row.1.size) % 2 ^ 64
          representatives := persisted.representatives +
            (commitRow scanId row.1 row.2 (paint digest scanId t marked)).1 }
        (committed ++ [(row.1.device, row.1.inode)]) (marked ∪ verifiedRows scanId t [row]) hrest
      refine ⟨committed', heq, fun o ho => hkeep o (List.mem_append_left _ ho), ?_⟩
      rintro r (hr | hr) hm
      · exact ⟨_, hkeep _ (List.mem_append_right _ (List.mem_singleton_self _)), (hown r hr hm).2⟩
      · by_cases hfirst : r ∈ verifiedRows scanId t [row]
        · exact ⟨_, hkeep _ (List.mem_append_right _ (List.mem_singleton_self _)),
            (hown r hfirst hm).2⟩
        · exact hcover r hr fun h => h.elim hm hfirst
    · rw [if_neg hpos]
      obtain ⟨committed', heq, hkeep, hcover⟩ := commitRows_paint hc hrows todo persisted committed
        (marked ∪ verifiedRows scanId t [row]) hrest
      refine ⟨committed', heq, hkeep, ?_⟩
      rintro r (hr | hr) hm
      · exact absurd (hown r hr hm).1 hpos
      · refine hcover r hr fun h => h.elim hm fun hfirst => hpos (hown r hfirst hm).1

theorem reachedOf_mono {s s' : Set (Int × FileRow)} (h : s ⊆ s') :
    reachedOf scanId t s ⊆ reachedOf scanId t s' := by
  rintro r ⟨hr, b, hb, hsame⟩
  exact ⟨hr, b, hb.imp_right (@h b), hsame⟩

theorem spreadOf_subset_blanks (hsub : marked ⊆ blanks scanId t) :
    spreadOf scanId t marked ⊆ blanks scanId t := by
  intro r hr
  rcases Spread.mem_spread.1 hr with h | h
  · exact hsub h
  · exact h.1

/-- The statements for the objects of a checkpoint fill what is reached of those objects, and
nothing that a pass over the scan would not fill. -/
theorem propagateCommittedObjects_paint (hc : Consistent digest scanId t session) :
    ∀ (objects seen : List (Nat × Nat)) (n : Nat) (marked : Set (Int × FileRow)),
      marked ⊆ blanks scanId t →
      ∃ marked', (propagateCommittedObjects scanId seen objects n (paint digest scanId t marked)).2 =
          paint digest scanId t marked' ∧
        marked ⊆ marked' ∧ marked' ⊆ spreadOf scanId t marked ∧
        ∀ o ∈ objects, o ∉ seen → ∀ r ∈ reachedOf scanId t marked,
          r.2.device = castI64 o.1 → r.2.inode = castI64 o.2 → r ∈ marked'
  | [], seen, n, marked, _ =>
    ⟨marked, rfl, subset_rfl, (spreadOf scanId t).le_closure marked, nofun⟩
  | object :: objects, seen, n, marked, hsub => by
    unfold propagateCommittedObjects
    by_cases hseen : object ∈ seen
    · rw [if_pos hseen]
      obtain ⟨marked', heq, hle, hge, hcover⟩ :=
        propagateCommittedObjects_paint hc objects seen n marked hsub
      refine ⟨marked', heq, hle, hge, fun o ho hnew => ?_⟩
      rcases List.mem_cons.1 ho with rfl | ho
      · exact absurd hseen hnew
      · exact hcover o ho hnew
    · rw [if_neg hseen]
      simp only
      unfold propagateObject
      rw [propagateChosen_paint hc hsub]
      set step := marked ∪ {r | (decide (r.2.device = castI64 object.1 ∧
        r.2.inode = castI64 object.2)) = true ∧ r ∈ reachedOf scanId t marked} with hstep
      have hgrow : step ⊆ spreadOf scanId t marked := by
        rintro r (hr | ⟨-, hr⟩)
        · exact Spread.mem_spread.2 (.inl hr)
        · exact Spread.mem_spread.2 (.inr hr)
      obtain ⟨marked', heq, hle, hge, hcover⟩ := propagateCommittedObjects_paint hc objects
        (object :: seen) (n + (propagateChosen scanId (fun f => decide (f.device = castI64 object.1 ∧
          f.inode = castI64 object.2)) (paint digest scanId t marked)).1)
        step (hgrow.trans (spreadOf_subset_blanks hsub))
      have hsame : spreadOf scanId t step = spreadOf scanId t marked :=
        Spread.spread_eq_of_between Set.subset_union_left hgrow
      refine ⟨marked', heq, Set.subset_union_left.trans hle, hsame ▸ hge, fun o ho hnew r hr hd hi => ?_⟩
      by_cases hoo : o = object
      · subst hoo
        exact hle (.inr ⟨decide_eq_true ⟨hd, hi⟩, hr⟩)
      · refine hcover o ((List.mem_cons.1 ho).resolve_left hoo) ?_ r
          (reachedOf_mono Set.subset_union_left hr) hd hi
        rw [List.mem_cons, not_or]
        exact ⟨hoo, hnew⟩

end Steps

/-! ## Sessions -/

/-- No row without a digest has a trusted row of its object: a pass over the scan would change
nothing. -/
def Settled (scanId : Int) (t : FileTable) : Prop :=
  ∀ r ∈ t, r.1 = scanId → r.2.hash = .null → ∀ src ∈ t, trustedSource r src = false

/-- A call with its propagation left to the end of the session. -/
def HashOp.runDeferred (scanId : Int) (op : HashOp) (t : FileTable) : FileTable :=
  match op with
  | .recordHashesVerified rows => (commitRows scanId rows (⟨0, 0, 0⟩, [], t)).2.2
  | op => (op.run scanId t).2

/-- The calls of one session, one after the other. -/
def runSession (scanId : Int) (session : List HashOp) (t : FileTable) : FileTable :=
  session.foldl (fun t op => (op.run scanId t).2) t

/-- The same calls with their propagation left to the end. -/
def runDeferredSession (scanId : Int) (session : List HashOp) (t : FileTable) : FileTable :=
  session.foldl (fun t op => op.runDeferred scanId t) t

theorem runSession_cons (scanId : Int) (op : HashOp) (session : List HashOp) (t : FileTable) :
    runSession scanId (op :: session) t = runSession scanId session (op.run scanId t).2 := rfl

theorem runDeferredSession_cons (scanId : Int) (op : HashOp) (session : List HashOp)
    (t : FileTable) : runDeferredSession scanId (op :: session) t =
      runDeferredSession scanId session (op.runDeferred scanId t) := rfl

/-- Whether a pass over the scan has been made since the last inheritance, or nothing was left to
spread from the beginning. -/
def PassMade (settled : Prop) : List HashOp → Prop
  | [] => settled
  | .inheritHashes :: session => PassMade False session
  | .propagateInheritedHashes :: session => PassMade True session
  | .recordHashesVerified _ :: session => PassMade settled session

section Session

variable {digest : ObjectKey → Value} {scanId : Int} {t : FileTable} {session : List HashOp}
variable {marked : Set (Int × FileRow)}

/-- Under one digest for each object, nothing that a session weighs disagrees. -/
theorem evidence_paint (hc : Consistent digest scanId t session) :
    Agree (trustedEvidence scanId (paint digest scanId t marked) ++
      offeredEvidence scanId (paint digest scanId t marked)) := by
  have hone : ∀ e ∈ trustedEvidence scanId (paint digest scanId t marked) ++
      offeredEvidence scanId (paint digest scanId t marked), e.2 = digest e.1.objectKey := by
    intro e he
    rcases List.mem_append.1 he with he | he
    · obtain ⟨r, hr, hscan, htrusted, rfl⟩ := mem_trustedEvidence.1 he
      rcases mem_paint.1 hr with ⟨b, -, -, rfl⟩ | ⟨hmem, -⟩
      · rfl
      · exact hc.trusted r hmem hscan htrusted
    · obtain ⟨cur, hcur, hscan, hnull, prev, hprev, hs, rfl⟩ := mem_offeredEvidence.1 he
      rcases mem_paint.1 hcur with ⟨b, -, -, rfl⟩ | ⟨hmem, -⟩
      · exact absurd hnull (hc.ne_null _)
      · have hblank : cur ∈ blanks scanId t := ⟨hmem, hscan, hnull⟩
        exact hc.offered cur hmem hscan hnull prev ((offer_paint hblank hs).1 hprev) hs
  intro a ha b hb hkey _ _
  rw [hone a ha, hone b hb, hkey]

theorem run_propagate_paint (hc : Consistent digest scanId t session)
    (hsub : marked ⊆ blanks scanId t) :
    HashOp.propagateInheritedHashes.run scanId (paint digest scanId t marked) =
      (.ok (), paint digest scanId t (spreadOf scanId t marked)) := by
  rcases run_propagate scanId (paint digest scanId t marked) with ⟨e, -, h⟩ | ⟨h, -⟩
  · exact absurd ((evidence_paint hc).subset fun _ h => List.mem_append_left _ h) h
  · rw [h, propagateTrustedDigests_paint hc hsub]

theorem run_inherit_paint (hc : Consistent digest scanId t session) :
    HashOp.inheritHashes.run scanId (paint digest scanId t marked) =
      (.ok (), paint digest scanId t (marked ∪ offeredRows scanId t)) := by
  rcases run_inherit scanId (paint digest scanId t marked) with ⟨e, -, h⟩ | ⟨h, -⟩
  · exact absurd (evidence_paint hc) h
  · rw [h, inheritOffered_paint hc]

/-- **One checkpoint**: it marks the rows it verifies and no more than a pass over the scan would,
and where nothing was left to spread before it, nothing is left behind it. -/
theorem run_checkpoint_paint (hc : Consistent digest scanId t session)
    {rows : List (ManifestRow × Bytes)} (hrows : .recordHashesVerified rows ∈ session)
    (hsub : marked ⊆ blanks scanId t) :
    ∃ marked', (HashOp.recordHashesVerified rows).run scanId (paint digest scanId t marked) =
        (.ok (), paint digest scanId t marked') ∧
      marked ∪ verifiedRows scanId t rows ⊆ marked' ∧
      marked' ⊆ spreadOf scanId t (marked ∪ verifiedRows scanId t rows) ∧
      (reachedOf scanId t marked ⊆ marked → reachedOf scanId t marked' ⊆ marked') := by
  have hfirst : marked ∪ verifiedRows scanId t rows ⊆ blanks scanId t :=
    Set.union_subset hsub verifiedRows_blank
  obtain ⟨committed, hrowsEq, -, hcover⟩ :=
    commitRows_paint hc hrows rows ⟨0, 0, 0⟩ [] marked fun _ h => h
  obtain ⟨marked', heq, hle, hge, hobjects⟩ :=
    propagateCommittedObjects_paint hc committed [] 0 _ hfirst
  refine ⟨marked', ?_, hle, hge, fun hsettled => ?_⟩
  · rw [run_checkpoint, recordHashesVerified_snd, hrowsEq, heq]
  · -- A row of the object of a source or of a mark is marked.
    have hspread : ∀ c, (c ∈ sources scanId t ∨ c ∈ marked ∪ verifiedRows scanId t rows) →
        ∀ r ∈ blanks scanId t, Alike c r → r ∈ marked' := by
      intro c hmark r hr hsame
      by_cases hold : c ∈ sources scanId t ∨ c ∈ marked
      · exact hle (.inl (hsettled ⟨hr, c, hold, hsame⟩))
      · rw [not_or] at hold
        have hnew : c ∈ verifiedRows scanId t rows :=
          (hmark.resolve_left hold.1).resolve_left hold.2
        obtain ⟨o, ho, hd, hi⟩ := hcover c hnew hold.2
        have hobject := hsame
        simp only [Alike, FileRow.sameObject, Bool.and_eq_true, decide_eq_true_eq] at hobject
        exact hobjects o ho List.not_mem_nil r ⟨hr, c, .inr (.inr hnew), hsame⟩
          (hobject.2.1.symm.trans hd) (hobject.2.2.1.symm.trans hi)
    rintro r ⟨hr, b, hb | hb, hsame⟩
    · exact hspread b (.inl hb) r hr hsame
    · rcases Spread.mem_spread.1 (hge hb) with hb | ⟨-, c, hmark, hcb⟩
      · exact hspread b (.inr hb) r hr hsame
      · exact hspread c hmark r hr (hcb.trans hsame)

/-- Where nothing is left to spread, a pass over the scan closes what is closed already. -/
theorem spreadOf_eq_of_reached (h : reachedOf scanId t marked ⊆ marked) :
    spreadOf scanId t marked = marked := by
  ext r
  rw [spreadOf, Spread.mem_spread]
  exact ⟨fun hr => hr.elim id (@h r), .inl⟩

/-- A session with its propagations and one without them, from tables that one pass brings
together. -/
theorem session_paint (hc : Consistent digest scanId t session) :
    ∀ {todo : List HashOp} {settled : Prop} {full late : Set (Int × FileRow)},
      (∀ op ∈ todo, op ∈ session) → full ⊆ blanks scanId t → late ⊆ full →
      full ⊆ spreadOf scanId t late → (settled → reachedOf scanId t full ⊆ full) →
      ∃ full' late',
        runSession scanId todo (paint digest scanId t full) = paint digest scanId t full' ∧
        runDeferredSession scanId todo (paint digest scanId t late) = paint digest scanId t late' ∧
        full' ⊆ blanks scanId t ∧ late' ⊆ full' ∧ full' ⊆ spreadOf scanId t late' ∧
        (PassMade settled todo → reachedOf scanId t full' ⊆ full')
  | [], settled, full, late, _, hblank, hle, hge, hsettled =>
    ⟨full, late, rfl, rfl, hblank, hle, hge, hsettled⟩
  | op :: todo, settled, full, late, hops, hblank, hle, hge, hsettled => by
    have hrest := fun op' h' => hops op' (List.mem_cons_of_mem op h')
    have hlate : late ⊆ blanks scanId t := hle.trans hblank
    rw [runSession_cons, runDeferredSession_cons]
    cases op with
    | inheritHashes =>
      have hdeferred : HashOp.inheritHashes.runDeferred scanId (paint digest scanId t late) =
          (HashOp.inheritHashes.run scanId (paint digest scanId t late)).2 := rfl
      rw [hdeferred, run_inherit_paint hc, run_inherit_paint hc]
      refine session_paint hc hrest (Set.union_subset hblank fun r hr => hr.1)
        (Set.union_subset_union_left _ hle) ?_ False.elim
      refine Set.union_subset (hge.trans ?_) ?_
      · exact (spreadOf scanId t).monotone Set.subset_union_left
      · exact Set.subset_union_right.trans ((spreadOf scanId t).le_closure _)
    | propagateInheritedHashes =>
      have hdeferred :
          HashOp.propagateInheritedHashes.runDeferred scanId (paint digest scanId t late) =
            (HashOp.propagateInheritedHashes.run scanId (paint digest scanId t late)).2 := rfl
      rw [hdeferred, run_propagate_paint hc hblank, run_propagate_paint hc hlate]
      have hsame : spreadOf scanId t full = spreadOf scanId t late :=
        Spread.spread_eq_of_between hle hge
      rw [hsame]
      refine session_paint hc hrest (spreadOf_subset_blanks hlate) subset_rfl
        ((spreadOf scanId t).le_closure _) fun _ r hr => ?_
      rw [← (spreadOf scanId t).idempotent late]
      exact Spread.mem_spread.2 (.inr hr)
    | recordHashesVerified rows =>
      have hmem := hops _ List.mem_cons_self
      obtain ⟨full', hrun, hle', hge', hsettled'⟩ := run_checkpoint_paint hc hmem hblank
      obtain ⟨committed, hcommit, -⟩ :=
        commitRows_paint hc hmem rows ⟨0, 0, 0⟩ [] late fun _ h => h
      have hdeferred :
          (HashOp.recordHashesVerified rows).runDeferred scanId (paint digest scanId t late) =
            (commitRows scanId rows (⟨0, 0, 0⟩, [], paint digest scanId t late)).2.2 := rfl
      rw [hdeferred, hrun, hcommit]
      have hgrow : full ∪ verifiedRows scanId t rows ⊆
          spreadOf scanId t (late ∪ verifiedRows scanId t rows) := by
        refine Set.union_subset (hge.trans ?_) ?_
        · exact (spreadOf scanId t).monotone Set.subset_union_left
        · exact Set.subset_union_right.trans ((spreadOf scanId t).le_closure _)
      have hsame := Spread.spread_eq_of_between (Set.union_subset_union_left _ hle) hgrow
      refine session_paint hc hrest ?_ ((Set.union_subset_union_left _ hle).trans hle')
        (hge'.trans (le_of_eq hsame)) fun hs => hsettled' (hsettled hs)
      exact hge'.trans (spreadOf_subset_blanks (Set.union_subset hblank verifiedRows_blank))

/-- **Propagation by object reaches what a pass at the end reaches**, as soon as a pass has been
made since the last inheritance; and a last pass always brings the two together. -/
theorem session_spreads (hc : Consistent digest scanId t session) :
    (propagateTrustedDigests scanId (runSession scanId session t)).2 =
        (propagateTrustedDigests scanId (runDeferredSession scanId session t)).2 ∧
      (PassMade (Settled scanId t) session → runSession scanId session t =
        (propagateTrustedDigests scanId (runDeferredSession scanId session t)).2) := by
  have hsettled : Settled scanId t → reachedOf scanId t ∅ ⊆ ∅ := by
    intro h r hr
    obtain ⟨src, hsrc, hs⟩ := (source_paint hc (Set.empty_subset _) hr.1).2 hr
    rw [paint_empty] at hsrc
    rw [h r hr.1.1 hr.1.2.1 hr.1.2.2 src hsrc] at hs
    cases hs
  obtain ⟨full, late, hfull, hlate, hblank, hle, hge, hpass⟩ :=
    session_paint hc (fun _ h => h) (Set.empty_subset _) subset_rfl
      ((spreadOf scanId t).le_closure ∅) hsettled
  rw [paint_empty] at hfull hlate
  have hsame : spreadOf scanId t full = spreadOf scanId t late :=
    Spread.spread_eq_of_between hle hge
  rw [hfull, hlate, propagateTrustedDigests_paint hc hblank,
    propagateTrustedDigests_paint hc (hle.trans hblank), hsame]
  exact ⟨rfl, fun h => by rw [← hsame, spreadOf_eq_of_reached (hpass h)]⟩

end Session

/-! ## Every sequence of calls -/

/-- The calls one after the other, each on its own scan. -/
def runCalls (calls : List (Int × HashOp)) (t : FileTable) : FileTable :=
  calls.foldl (fun t call => (call.2.run call.1 t).2) t

/-- What holds of the reuse of digests over a sequence of calls. -/
structure HashReuse (t : FileTable) (calls : List (Int × HashOp)) : Prop where
  /-- Every call writes only what has a source, refuses without a change, and leaves digests that
  agree. -/
  call : ∀ before scanId op after, calls = before ++ (scanId, op) :: after →
    CallSound scanId op (runCalls before t)
  /-- A session that meets one digest for each object ends where a pass over its scan would end. -/
  session : ∀ before scanId session, calls = before ++ session.map (Prod.mk scanId) →
    ∀ digest, Consistent digest scanId (runCalls before t) session →
      (propagateTrustedDigests scanId (runCalls calls t)).2 =
          (propagateTrustedDigests scanId
            (runDeferredSession scanId session (runCalls before t))).2 ∧
        (PassMade (Settled scanId (runCalls before t)) session → runCalls calls t =
          (propagateTrustedDigests scanId
            (runDeferredSession scanId session (runCalls before t))).2)

/-- **Reuse of digests, over every table and every sequence of calls.** -/
theorem hash_reuse (t : FileTable) (calls : List (Int × HashOp)) : HashReuse t calls where
  call before scanId op _ _ := callSound scanId (runCalls before t) op
  session before scanId session hcalls digest hc := by
    have hrun : runCalls calls t = runSession scanId session (runCalls before t) := by
      rw [hcalls, runCalls, List.foldl_append, List.foldl_map]
      rfl
    rw [hrun]
    exact session_spreads hc

/-! ## A checkpoint does not probe -/

/-- A row of one object, under a pathname and with a digest of its own. -/
def aliasRow (path : Bytes) (identityVersion : Int) (hash : Value) : Int × FileRow :=
  (1, ⟨.text path, .integer 7, 0, 0, 0, 0, identityVersion, 5, 9, .integer 2, hash⟩)

/-- One object with a trusted pathname and one that was never filled from it. -/
def unspread : FileTable :=
  [aliasRow [97] 1 (.blob (List.replicate 32 1)), aliasRow [98] 0 .null]

/-- The second pathname of the object, read with another digest. -/
def rereadAlias : HashOp :=
  .recordHashesVerified [(⟨[98], 7, 0, 0, 0, 0, 5, 9, 2⟩, List.replicate 32 2)]

/-- **A checkpoint commits a digest that disagrees with one its object has, and a checkpoint does not
spread what was there before it.** -/
theorem checkpoint_does_not_probe :
    (DigestsAgree 1 unspread ∧ (rereadAlias.run 1 unspread).1 = .ok () ∧
        ¬ DigestsAgree 1 (rereadAlias.run 1 unspread).2) ∧
      (runCalls [(1, .recordHashesVerified [])] unspread).map (fun r => r.2.hash) ≠
        (propagateTrustedDigests 1
          (runDeferredSession 1 [.recordHashesVerified []] unspread)).2.map fun r => r.2.hash := by
  refine ⟨⟨conflictingObjects_eq_zero.1 (by decide), rfl, ?_⟩, by decide⟩
  exact fun h => absurd (conflictingObjects_eq_zero.2 h) (by decide)

end DedupCommando
