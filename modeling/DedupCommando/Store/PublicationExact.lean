import DedupCommando.Store.PublicationSound

/-!
# Every reader finds what was published

* `insertGroups_ok`, `measured` — the explicit writer over its ranked groups.
* `Ranked` — a table of summaries numbered from zero.
* `Established` — the authority is valid, each rank has the pathnames published for it, no pathname
  has two ranks, and each rank has two allocations.
* `publication_establishes` — that is so exactly when no derived group has a negative size; a
  refused publication changes nothing.
-/

set_option autoImplicit false

namespace DedupCommando

open Sql (Value)

/-! ## The explicit writer -/

/-- The member row of a file. -/
def FileEntry.memberRow (rank : Nat) (generation : Int) (e : FileEntry) : MemberRow :=
  ⟨.integer rank, .text (lossyUtf8 e.path), .integer generation⟩

theorem insertMembers_ok {rank : Nat} {generation : Int} {files : List FileEntry} :
    ∀ {t t' : ScanTables}, insertMembers rank generation files t = (.ok (), t') →
      t' = { t with member := t.member ++ files.map (FileEntry.memberRow rank generation) } ∧
        (∀ e ∈ files, lossyUtf8 e.path ≠ []) ∧
        ((t.member.map MemberRow.path).Nodup → (t'.member.map MemberRow.path).Nodup) := by
  induction files with
  | nil =>
    intro t t' h
    cases h
    simp
  | cons e es ih =>
    intro t t' h
    unfold insertMembers at h
    simp only at h
    split at h
    · cases h
    rename_i hempty
    split at h
    · cases h
    rename_i hnew
    obtain ⟨rfl, hrest, hnodup⟩ := ih h
    refine ⟨?_, ?_, fun hnd => hnodup ?_⟩
    · rw [List.map_cons, List.append_assoc]; rfl
    · intro e' he'
      rcases List.mem_cons.1 he' with rfl | he'
      · exact hempty
      · exact hrest e' he'
    · rw [List.map_append, List.map_cons, List.map_nil]
      refine List.nodup_append.2 ⟨hnd, List.nodup_singleton _, ?_⟩
      intro v hv w hw heq
      rw [List.mem_singleton.1 hw] at heq
      obtain ⟨m, hm, rfl⟩ := List.mem_map.1 hv
      refine hnew (List.any_eq_true.2 ⟨m, hm, ?_⟩)
      simpa using heq

theorem insertGroups_ok {generation : Int} {rows : List (DuplicateGroup × GroupReclaim)} :
    ∀ {rank : Nat} {t t' : ScanTables}, insertGroups generation rank rows t = (.ok (), t') →
      t' = { t with
        fileGroup := t.fileGroup ++ (rows.zipIdx rank).map fun p => explicitRow p.2 p.1
        member := t.member ++ (rows.zipIdx rank).flatMap fun p =>
          p.1.1.files.map (FileEntry.memberRow p.2 generation) } ∧
        (∀ row ∈ rows, ∀ e ∈ row.1.files, lossyUtf8 e.path ≠ []) ∧
        ((t.member.map MemberRow.path).Nodup → (t'.member.map MemberRow.path).Nodup) := by
  induction rows with
  | nil =>
    intro rank t t' h
    cases h
    simp
  | cons row rows ih =>
    intro rank t t' h
    unfold insertGroups at h
    split at h
    · cases h
    rename_i t₁ hmembers
    obtain ⟨rfl, hempty, hnodup⟩ := insertMembers_ok hmembers
    obtain ⟨rfl, hrest, hnodup'⟩ := ih h
    refine ⟨?_, List.forall_mem_cons.2 ⟨hempty, hrest⟩, fun hnd => hnodup' (hnodup hnd)⟩
    rw [List.zipIdx_cons, List.map_cons, List.flatMap_cons]
    simp only [List.append_assoc, List.singleton_append]

/-! ## The figures of an explicit group -/

theorem measureGroups_ok {groups : List DuplicateGroup} :
    ∀ {rows : List (DuplicateGroup × GroupReclaim)}, measureGroups groups = .ok rows →
      ∀ row ∈ rows, row.1 ∈ groups ∧ row.1.physicalReclaim = .ok row.2 ∧ 2 ≤ row.2.objectCount := by
  induction groups with
  | nil => intro rows h; cases h; exact fun _ h => absurd h List.not_mem_nil
  | cons g gs ih =>
    intro rows h
    unfold measureGroups at h
    split at h
    · cases h
    rename_i reclaim hreclaim
    split at h
    · cases h
    rename_i rows' hrows
    have hrest : ∀ row ∈ rows', row.1 ∈ g :: gs ∧ row.1.physicalReclaim = .ok row.2 ∧
        2 ≤ row.2.objectCount := fun row hrow =>
      ⟨List.mem_cons_of_mem _ (ih hrows row hrow).1, (ih hrows row hrow).2⟩
    split at h
    · rename_i htwo
      cases h
      exact List.forall_mem_cons.2 ⟨⟨List.mem_cons_self, hreclaim, htwo⟩, hrest⟩
    · cases h
      exact hrest

theorem agreedLinks_ok {evidence : List ObjectEvidence} : ∀ {links : List ObjectLinks},
    agreedLinks evidence = .ok links →
      links.map ObjectLinks.observed = evidence.map ObjectEvidence.observed := by
  induction evidence with
  | nil => intro links h; cases h; rfl
  | cons o os ih =>
    intro links h
    unfold agreedLinks at h
    split at h
    · cases h
    split at h
    · cases h
    rename_i rest hrest
    cases h
    rw [List.map_cons, List.map_cons, ih hrest]

theorem objectCeiling_ok {size n c : Nat} (h : ReclaimEstimate.objectCeiling size n = .ok c) :
    n ≠ 0 ∧ c = size * (n - 1) ∧ c ≤ i64Max := by
  unfold ReclaimEstimate.objectCeiling at h
  split at h
  · cases h
  rename_i hn
  split at h
  · rename_i hle; cases h; exact ⟨hn, rfl, hle⟩
  · cases h

theorem forObjects_ok {size : Nat} {objects : List ObjectLinks} {named : String} {e : ReclaimEstimate}
    (h : ReclaimEstimate.forObjects size objects named = .ok e) :
    size * (objects.length - 1) ≤ i64Max ∧
      (e = ReclaimEstimate.unknown ∨ e = ReclaimEstimate.exact (size * (objects.length - 1)) ∨
        e = ReclaimEstimate.upperBound (size * (objects.length - 1))) := by
  unfold ReclaimEstimate.forObjects at h
  split at h
  · cases h
  rename_i c hc
  obtain ⟨-, rfl, hle⟩ := objectCeiling_ok hc
  split at h
  · cases h
  rename_i unknown incomplete hweigh
  cases h
  refine ⟨hle, ?_⟩
  cases unknown <;> cases incomplete <;> simp

theorem evidence_observed (g : DuplicateGroup) :
    (g.evidence.map ObjectEvidence.observed).sum = g.files.length ∧
      g.evidence.length = (Grouping.keysOf FileEntry.objectKey g.files).length := by
  have hperm := List.perm_insertionSort
    (fun a b : ObjectEvidence => pathOrder a.representative ≤ pathOrder b.representative)
    ((Grouping.groupByKey FileEntry.objectKey g.files).map fun o => ObjectEvidence.of o.2)
  constructor
  · rw [DuplicateGroup.evidence, (hperm.map _).sum_eq, List.map_map]
    exact Grouping.sum_length_groupByKey _ _
  · rw [DuplicateGroup.evidence, hperm.length_eq, List.length_map, Grouping.length_groupByKey]

/-- What the figure of a group in memory is. -/
theorem physicalReclaim_ok {g : DuplicateGroup} {r : GroupReclaim} (h : g.physicalReclaim = .ok r) :
    r.observedPaths = g.files.length ∧
      r.objectCount = (Grouping.keysOf FileEntry.objectKey g.files).length ∧
      g.sizeBytes * (r.objectCount - 1) ≤ i64Max ∧ r.estimate.persistedBytes ≤ i64Max := by
  unfold DuplicateGroup.physicalReclaim at h
  simp only at h
  split at h
  · cases h
  rename_i links hlinks
  have hobserved := agreedLinks_ok hlinks
  have hlength : links.length = g.evidence.length := by
    simpa using congrArg List.length hobserved
  unfold GroupReclaim.ofObjects at h
  split at h
  · cases h
  rename_i estimate hestimate
  cases h
  obtain ⟨hfit, hestimate⟩ := forObjects_ok hestimate
  refine ⟨by rw [hobserved, (evidence_observed g).1], by rw [hlength, (evidence_observed g).2], hfit, ?_⟩
  rcases hestimate with rfl | rfl | rfl
  · exact Nat.zero_le _
  · exact hfit
  · exact hfit

theorem castI64_of_le {n : Nat} (h : n ≤ i64Max) : castI64 n = n := by
  unfold i64Max at h
  unfold castI64
  rw [Nat.mod_eq_of_lt (by omega), if_pos (by omega)]
  omega

/-! ## Ranks -/

theorem pairwise_ranks {β : Type} {row : Nat → β → GroupRow}
    (hrank : ∀ i b, (row i b).rank = .integer i) (l : List β) :
    (l.zipIdx.map fun p => row p.2 p.1).Pairwise fun a b => Value.same a.rank b.rank = false := by
  rw [List.pairwise_map]
  have hnd : (l.zipIdx.map Prod.snd).Nodup := by
    rw [List.zipIdx_map_snd]
    exact List.nodup_range'
  refine (List.pairwise_map.1 hnd).imp fun {p q} hne => ?_
  rw [hrank, hrank, Bool.eq_false_iff]
  intro hsame
  exact hne (Int.ofNat_inj.1 (Value.same_integer.1 hsame))

/-- The summary of a rank is the one numbered so. -/
theorem groupsAt_rank {β : Type} {row : Nat → β → GroupRow}
    (hrank : ∀ i b, (row i b).rank = .integer i) {l : List β} {t : ScanTables}
    (ht : t.fileGroup = l.zipIdx.map fun p => row p.2 p.1) {i : Nat} {b : β} (h : l[i]? = some b) :
    t.groupsAt (.integer i) = [row i b] := by
  unfold ScanTables.groupsAt
  rw [ht]
  have hmem : row i b ∈ (l.zipIdx.map fun p => row p.2 p.1).filter fun g =>
      Value.same g.rank (.integer i) := by
    refine List.mem_filter.2 ⟨List.mem_map.2 ⟨(b, i), List.mem_zipIdx_iff_getElem?.2 h, rfl⟩, ?_⟩
    rw [hrank]
    exact Value.same_integer.2 rfl
  exact (filter_key_unique (pairwise_ranks hrank l) hmem).1

theorem exists_rank {β : Type} {row : Nat → β → GroupRow}
    (hrank : ∀ i b, (row i b).rank = .integer i) {l : List β} {t : ScanTables}
    (ht : t.fileGroup = l.zipIdx.map fun p => row p.2 p.1) {r : Int} {g : GroupRow}
    (hg : g ∈ t.groupsAt (.integer r)) :
    ∃ (i : Nat) (b : β), l[i]? = some b ∧ r = i ∧ g = row i b := by
  obtain ⟨hg, hsame⟩ := List.mem_filter.1 hg
  rw [ht] at hg
  obtain ⟨⟨b, i⟩, hmem, rfl⟩ := List.mem_map.1 hg
  rw [hrank, Value.same_integer] at hsame
  exact ⟨i, b, List.mem_zipIdx_iff_getElem?.1 hmem, hsame.symm, rfl⟩

/-! ## What is established -/

/-- The explicit groups in the order of their ranks. -/
def explicitRows (groups : List DuplicateGroup) : List (DuplicateGroup × GroupReclaim) :=
  match measureGroups groups with
  | .ok rows => Sql.orderBy explicitOrder rows
  | .error _ => []

/-- The pathnames published for each rank. -/
def PublishMode.pathnames (mode : PublishMode) (files : List FileRow) : List (List Value) :=
  match mode with
  | .derived => (derivedFigures files).map fun x =>
      (files.filter fun f => Value.same f.hash x.digest).map FileRow.path
  | .explicit groups => (explicitRows groups).map fun row =>
      row.1.files.map fun e => .text e.path

/-- What a reader of the publication reads. -/
def publishedSnapshot (scanId generation : Int) (mode : PublishMode) (t : ScanTables) : Snapshot :=
  ⟨t, scanId, mode.membership, generation, []⟩

/-- What every reader demands of a publication. -/
structure Established (scanId generation : Int) (mode : PublishMode) (files : List FileRow)
    (t : ScanTables) : Prop where
  authority : ∃ m g, t.membership = some (m, g) ∧
    decodeAuthority m g = .ok (mode.membership, generation)
  valid : validateAuthority t scanId mode.membership generation = .ok []
  ranks : t.fileGroup.map GroupRow.rank =
    (List.range (mode.pathnames files).length).map fun i => .integer i
  members : ∀ (i : Nat) (paths : List Value), (mode.pathnames files)[i]? = some paths →
    (((publishedSnapshot scanId generation mode t).memberRows i).map FileRow.path).Perm paths
  disjoint : ∀ r r' : Int, r ≠ r' →
    ∀ f ∈ (publishedSnapshot scanId generation mode t).memberRows r,
      ∀ f' ∈ (publishedSnapshot scanId generation mode t).memberRows r',
        Value.same f.path f'.path = false
  allocations : ∀ i < (mode.pathnames files).length,
    ∃ f ∈ (publishedSnapshot scanId generation mode t).memberRows i,
      ∃ f' ∈ (publishedSnapshot scanId generation mode t).memberRows i, f.objectKey ≠ f'.objectKey

/-! ## Derived publications -/

section Derived

variable {scanId generation : Int} {files : List FileRow} {t : ScanTables}

/-- What a derived publication leaves. -/
structure DerivedTables (files : List FileRow) (generation : Int) (t : ScanTables) : Prop where
  file : t.file = files
  member : t.member = []
  authority : t.membership = some (.integer 1, .integer generation)
  rows : t.fileGroup = (derivedFigures files).zipIdx.map fun p => GroupFigures.row p.2 p.1
  measured : ∀ x ∈ derivedFigures files,
    (∃ n, x.size = .integer n) ∧ x.ceiling.typeof = "integer"

theorem typeof_integer {v : Value} : v.typeof = "integer" ↔ ∃ n, v = .integer n := by
  cases v <;> simp [Value.typeof]

theorem derivedTables_ok {hasScan : Bool} {t t' : ScanTables}
    (h : publishResults scanId hasScan .derived t = (.ok generation, t')) :
    0 < generation ∧ DerivedTables t.file generation t' := by
  obtain ⟨hpos, t₁, stats, hinsert, rfl⟩ := publishResults_ok h
  obtain ⟨hrefuse, rfl⟩ := insertDerived_ok hinsert
  refine ⟨hpos, rfl, rfl, rfl, ?_, fun x hx => ?_⟩
  · show _ = List.map _ _
    rw [derivedFigures, ← List.mapIdx_eq_zipIdx_map]
    rfl
  · obtain ⟨g, hg, rfl⟩ := mem_derivedFigures.1 hx
    obtain ⟨f, hf⟩ := List.exists_mem_of_ne_nil _ (mem_digestGroups hg).1
    obtain ⟨o, ho, -⟩ := exists_objectsOf hf
    have htrust := refuseUntrustworthyGroupObjects_ok.1 hrefuse g hg o ho
    simp only [untrustworthy, Bool.or_eq_false_iff, decide_eq_false_iff_not, not_not] at htrust
    exact ⟨typeof_integer.1 htrust.1.2, htrust.2⟩

theorem row_rank (i : Nat) (x : GroupFigures) : (GroupFigures.row i x).rank = .integer i := rfl

theorem derived_blob (hdigests : Digests files) {x : GroupFigures} (hx : x ∈ derivedFigures files) :
    ∃ d : Bytes, d.length = 32 ∧ x.digest = .blob d ∧ x.fileCount =
      (files.filter fun f => Value.same f.hash (.blob d)).length := by
  obtain ⟨g, hg, rfl⟩ := mem_derivedFigures.1 hx
  obtain ⟨d, hlen, -, heq, hd⟩ := digestGroup_blob hdigests hg
  exact ⟨d, hlen, hd, by rw [figuresOf_fileCount, ← heq]⟩

/-- The members of a derived rank are the rows with its digest. -/
theorem derived_filesOf (hdigests : Digests files) (hfile : t.file = files) {x : GroupFigures}
    (hx : x ∈ derivedFigures files) (i : Nat) :
    t.filesOf (x.row i).hash = files.filter fun f => Value.same f.hash x.digest := by
  obtain ⟨d, -, hd, -⟩ := derived_blob hdigests hx
  unfold ScanTables.filesOf GroupFigures.row
  rw [hd, hfile]
  simp only [Sql.lowerHex, Sql.unhex_hexText]

theorem ceiling_nonneg {x : GroupFigures} (hx : x ∈ derivedFigures files) {n c : Int}
    (hn : x.size = .integer n) (hpos : 0 ≤ n) (hc : x.ceiling = .integer c) : 0 ≤ c := by
  obtain ⟨g, hg, rfl⟩ := mem_derivedFigures.1 hx
  have htwo := (mem_digestGroups hg).2.2
  rw [figuresOf_ceiling, hn, Value.times] at hc
  split at hc
  · cases hc
    exact Int.mul_nonneg hpos (by omega)
  · cases hc

/-- **A derived publication is valid exactly when no group has a negative size.** -/
theorem derived_valid (hdigests : Digests files) (ht : DerivedTables files generation t) :
    validateAuthority t scanId .derived generation = .ok [] ↔
      ∀ x ∈ derivedFigures files, Value.less x.size (.integer 0) = false := by
  have hless : ∀ n : Int, Value.less (.integer n) (.integer 0) = false ↔ 0 ≤ n := by
    intro n
    have hlt : (Value.integer n).key < (Value.integer 0).key ↔ n < 0 := by
      simp [Value.key, Prod.Lex.lt_iff]
    simp [Value.less, hlt]
  constructor
  · intro hvalid x hx
    obtain ⟨i, hi, rfl⟩ := List.getElem_of_mem hx
    have hrow : GroupFigures.row i (derivedFigures files)[i] ∈ t.fileGroup := by
      rw [ht.rows]
      exact List.mem_map.2 ⟨((derivedFigures files)[i], i),
        List.mem_zipIdx_iff_getElem?.2 (List.getElem?_eq_getElem hi), rfl⟩
    have hcells := (validateAuthority_ok (by simp) hvalid).domains _ hrow
    obtain ⟨n, hn⟩ := (ht.measured _ hx).1
    have hsize : badCount (derivedFigures files)[i].size = false :=
      hcells ("size", _, _) (List.mem_cons_of_mem _ (List.mem_cons_of_mem _ (List.mem_cons_of_mem _
        List.mem_cons_self)))
    rw [hn, badCount_integer] at hsize
    rw [hn, hless]
    exact hsize
  · intro hsizes
    have hrows : ∀ g ∈ t.fileGroup, ∃ i, ∃ x ∈ derivedFigures files, g = GroupFigures.row i x := by
      intro g hg
      rw [ht.rows] at hg
      obtain ⟨p, hp, rfl⟩ := List.mem_map.1 hg
      exact ⟨p.2, p.1, List.fst_mem_of_mem_zipIdx hp, rfl⟩
    refine validateAuthority_complete (fun g hg => ?_) ?_ fun g hg => ?_
    · obtain ⟨i, x, hx, rfl⟩ := hrows g hg
      obtain ⟨d, hlen, hd, -⟩ := derived_blob hdigests hx
      obtain ⟨⟨n, hn⟩, hceiling⟩ := ht.measured x hx
      obtain ⟨c, hc⟩ := typeof_integer.1 hceiling
      have hn0 : 0 ≤ n := by
        have := hsizes x hx
        rwa [hn, hless] at this
      have hc0 : 0 ≤ c := ceiling_nonneg hx hn hn0 hc
      have hstate : badReclaimState (.integer x.state) = false := by
        obtain ⟨g, -, rfl⟩ := mem_derivedFigures.1 hx
        rcases figuresOf_state g.2 with h | h | h <;> rw [h] <;> rfl
      have hreclaim : badCount x.reclaim = false := by
        unfold GroupFigures.reclaim
        split
        · rfl
        · rw [hc, badCount_integer]; exact hc0
      simp only [GroupRow.cells, GroupFigures.row, List.forall_mem_cons]
      refine ⟨badCount_integer.2 (by omega), ?_, badCount_integer.2 (by omega), ?_, hreclaim,
        badCount_integer.2 (by omega), hstate, fun _ h => absurd h List.not_mem_nil⟩
      · rw [hd]; exact badHash_hexText hlen
      · rw [hn]; exact badCount_integer.2 hn0
    · refine validateStructure_derived.2 ⟨ht.member, Sql.repeated_eq_zero.2 ?_⟩
      rw [ht.rows, List.map_map, List.map_map]
      have hkeys : (derivedFigures files).zipIdx.map ((Value.key ∘ GroupRow.hash) ∘
          fun p => GroupFigures.row p.2 p.1) =
          ((derivedFigures files).map fun x => Sql.lowerHex x.digest).map
            fun b => (Value.text b).key := by
        rw [← List.zipIdx_map_fst 0 (derivedFigures files), List.map_map, List.map_map,
          List.zipIdx_map_fst]
        rfl
      rw [hkeys]
      refine (nodup_derivedDigests hdigests).map fun b b' h => ?_
      exact Value.text.inj (Value.key_eq_text.1 h)
    · obtain ⟨i, x, hx, rfl⟩ := hrows g hg
      obtain ⟨d, -, hd, hcount⟩ := derived_blob hdigests hx
      have hmembers : memberCount t .derived (x.row i) = x.fileCount := by
        unfold memberCount
        simp only
        rw [derived_filesOf hdigests ht.file hx, hd, hcount]
      unfold disagrees
      rw [hmembers, Value.differs_eq_not_same (by simp) (by simp [GroupFigures.row]),
        Bool.not_eq_false']
      exact Value.same_integer.2 rfl

theorem derived_memberRows (hdigests : Digests files) (ht : DerivedTables files generation t)
    {r : Int} {f : FileRow} :
    f ∈ (publishedSnapshot scanId generation .derived t).memberRows r ↔
      ∃ (i : Nat) (x : GroupFigures), (derivedFigures files)[i]? = some x ∧ r = i ∧
        f ∈ files ∧ Value.same f.hash x.digest = true := by
  have hunfold : f ∈ (publishedSnapshot scanId generation .derived t).memberRows r ↔
      ∃ g ∈ t.groupsAt (.integer r), f ∈ t.filesOf g.hash := by
    unfold Snapshot.memberRows
    simp only [publishedSnapshot, PublishMode.membership, Sql.mem_orderBy, List.mem_flatMap]
  rw [hunfold]
  constructor
  · rintro ⟨g, hg, hf⟩
    obtain ⟨i, x, hx, rfl, rfl⟩ := exists_rank row_rank ht.rows hg
    rw [derived_filesOf hdigests ht.file (List.mem_of_getElem? hx)] at hf
    exact ⟨i, x, hx, rfl, List.mem_filter.1 hf⟩
  · rintro ⟨i, x, hx, rfl, hf⟩
    refine ⟨x.row i, ?_, ?_⟩
    · rw [groupsAt_rank row_rank ht.rows hx]
      exact List.mem_singleton_self _
    · rw [derived_filesOf hdigests ht.file (List.mem_of_getElem? hx)]
      exact List.mem_filter.2 hf

/-- **A derived publication without a negative size is what readers demand, and no other.** -/
theorem derived_established (hdigests : Digests files)
    (hkeyed : files.Pairwise fun a b => Value.same a.path b.path = false)
    (hpos : 0 < generation) (ht : DerivedTables files generation t) :
    Established scanId generation .derived files t ↔
      ∀ x ∈ derivedFigures files, Value.less x.size (.integer 0) = false := by
  constructor
  · intro h
    exact (derived_valid hdigests ht).1 h.valid
  intro hsizes
  refine ⟨⟨_, _, ht.authority, decodeAuthority_published .derived hpos⟩,
    (derived_valid hdigests ht).2 hsizes, ?_, fun i paths hpaths => ?_, fun r r' hne f hf f' hf' => ?_,
    fun i hi => ?_⟩
  · rw [ht.rows, List.map_map, PublishMode.pathnames, List.length_map, List.range_eq_range',
      ← List.zipIdx_map_snd, List.map_map]
    rfl
  · rw [PublishMode.pathnames, List.getElem?_map, Option.map_eq_some_iff] at hpaths
    obtain ⟨x, hx, rfl⟩ := hpaths
    unfold Snapshot.memberRows
    simp only [publishedSnapshot, PublishMode.membership]
    refine ((Sql.orderBy_perm _ _).map _).trans ?_
    rw [groupsAt_rank row_rank ht.rows hx, List.flatMap_singleton,
      derived_filesOf hdigests ht.file (List.mem_of_getElem? hx)]
  · obtain ⟨i, x, hx, rfl, hmem, hdigest⟩ := (derived_memberRows hdigests ht).1 hf
    obtain ⟨j, y, hy, rfl, hmem', hdigest'⟩ := (derived_memberRows hdigests ht).1 hf'
    rw [Bool.eq_false_iff]
    intro hsame
    have hrow : f' ∈ files.filter fun a => Value.same a.path f'.path :=
      List.mem_filter.2 ⟨hmem', Value.same_trans ((Value.same_comm _ _).trans hsame) hsame⟩
    have hrow' : f ∈ files.filter fun a => Value.same a.path f'.path :=
      List.mem_filter.2 ⟨hmem, hsame⟩
    rw [(filter_key_unique hkeyed hrow).1] at hrow'
    rw [List.mem_singleton.1 hrow'] at hdigest
    obtain ⟨d, -, hd, -⟩ := derived_blob hdigests (List.mem_of_getElem? hx)
    obtain ⟨d', -, hd', -⟩ := derived_blob hdigests (List.mem_of_getElem? hy)
    rw [hd, Value.same_blob] at hdigest
    rw [hd', Value.same_blob, hdigest] at hdigest'
    have htexts : ((derivedFigures files).map fun x => Sql.lowerHex x.digest)[i]? =
        ((derivedFigures files).map fun x => Sql.lowerHex x.digest)[j]? := by
      rw [List.getElem?_map, List.getElem?_map, hx, hy, Option.map_some, Option.map_some, hd, hd',
        hdigest']
    have hi : i < ((derivedFigures files).map fun x => Sql.lowerHex x.digest).length := by
      rw [List.length_map]
      exact (List.getElem?_eq_some_iff.1 hx).1
    exact hne (congrArg _ ((List.getElem?_inj hi (nodup_derivedDigests hdigests)).1 htexts))
  · rw [PublishMode.pathnames, List.length_map] at hi
    obtain ⟨g, hg, hfigures⟩ := mem_derivedFigures.1 (List.getElem_mem hi)
    obtain ⟨d, -, -, heq, hd⟩ := digestGroup_blob hdigests hg
    have htwo := (mem_digestGroups hg).2.2
    rw [objectsOf, List.length_map, Grouping.length_groupByKey] at htwo
    obtain ⟨f, hf, f', hf', hobjects⟩ := Grouping.exists_ne_of_two_le htwo
    have hmem : ∀ f ∈ g.2, f ∈ (publishedSnapshot scanId generation .derived t).memberRows i := by
      intro f hf
      rw [heq] at hf
      refine (derived_memberRows hdigests ht).2
        ⟨i, _, List.getElem?_eq_getElem hi, rfl, (List.mem_filter.1 hf).1, ?_⟩
      rw [← hfigures, hd]
      exact (List.mem_filter.1 hf).2
    exact ⟨f, hmem f hf, f', hmem f' hf', hobjects⟩

end Derived

/-! ## Explicit publications -/

section Explicit

variable {scanId generation : Int} {files : List FileRow} {groups : List DuplicateGroup} {t : ScanTables}

/-- What an explicit publication leaves. -/
structure ExplicitTables (files : List FileRow) (groups : List DuplicateGroup) (generation : Int)
    (t : ScanTables) : Prop where
  file : t.file = files
  authority : t.membership = some (.integer 2, .integer generation)
  rows : t.fileGroup = (explicitRows groups).zipIdx.map fun p => explicitRow p.2 p.1
  members : t.member = (explicitRows groups).zipIdx.flatMap fun p =>
    p.1.1.files.map (FileEntry.memberRow p.2 generation)
  paths : (t.member.map MemberRow.path).Nodup
  named : ∀ row ∈ explicitRows groups, ∀ e ∈ row.1.files, lossyUtf8 e.path ≠ []
  measured : ∀ row ∈ explicitRows groups,
    row.1 ∈ groups ∧ row.1.physicalReclaim = .ok row.2 ∧ 2 ≤ row.2.objectCount

theorem explicitTables_ok {hasScan : Bool} {t t' : ScanTables}
    (h : publishResults scanId hasScan (.explicit groups) t = (.ok generation, t')) :
    0 < generation ∧ ExplicitTables t.file groups generation t' := by
  obtain ⟨hpos, t₁, stats, hinsert, rfl⟩ := publishResults_ok h
  unfold insertResults insertExplicit at hinsert
  simp only at hinsert
  split at hinsert
  · cases hinsert
  rename_i rows hrows
  obtain ⟨rfl, hnamed, hpaths⟩ := insertGroups_ok hinsert
  have hexplicit : explicitRows groups = Sql.orderBy explicitOrder rows := by
    unfold explicitRows
    rw [hrows]
  refine ⟨hpos, rfl, rfl, ?_, ?_, ?_, ?_, ?_⟩
  · rw [hexplicit]; rfl
  · rw [hexplicit]; rfl
  · exact hpaths List.nodup_nil
  · rw [hexplicit]; exact hnamed
  · rw [hexplicit]
    exact fun row hrow => measureGroups_ok hrows row (Sql.mem_orderBy.1 hrow)

theorem explicitRow_rank (i : Nat) (row : DuplicateGroup × GroupReclaim) :
    (explicitRow i row).rank = .integer i := rfl

/-- The member rows of a rank are those of its group. -/
theorem membersAt_rank (ht : ExplicitTables files groups generation t) {i : Nat}
    {row : DuplicateGroup × GroupReclaim} (h : (explicitRows groups)[i]? = some row) :
    t.membersAt (.integer i) = row.1.files.map (FileEntry.memberRow i generation) := by
  have hkey : ∀ p : (DuplicateGroup × GroupReclaim) × Nat,
      ∀ m ∈ p.1.1.files.map (FileEntry.memberRow p.2 generation),
        m.groupRank.key = (Value.integer p.2).key := by
    intro p m hm
    obtain ⟨e, -, rfl⟩ := List.mem_map.1 hm
    rfl
  have hnd : ((explicitRows groups).zipIdx.map fun p => (Value.integer p.2).key).Nodup := by
    have hsnd : ((explicitRows groups).zipIdx.map Prod.snd).Nodup := by
      rw [List.zipIdx_map_snd]
      exact List.nodup_range'
    have hmap : ((explicitRows groups).zipIdx.map fun p => (Value.integer p.2).key) =
        ((explicitRows groups).zipIdx.map Prod.snd).map fun i : Nat => (Value.integer i).key := by
      rw [List.map_map]; rfl
    rw [hmap]
    refine hsnd.map fun i j hij => ?_
    have : Value.same (.integer i) (.integer j) = true := Value.same_iff.2 ⟨by simp, hij⟩
    exact Int.ofNat_inj.1 (Value.same_integer.1 this)
  have hmem : (row, i) ∈ (explicitRows groups).zipIdx := List.mem_zipIdx_iff_getElem?.2 h
  unfold ScanTables.membersAt
  rw [ht.members]
  refine (List.filter_congr fun m hm => ?_).trans (Grouping.filter_flatMap_key hkey hnd hmem)
  obtain ⟨p, -, hm⟩ := List.mem_flatMap.1 hm
  obtain ⟨e, -, rfl⟩ := List.mem_map.1 hm
  exact decide_eq_decide.2 ⟨And.right, fun h => ⟨by simp [FileEntry.memberRow], h⟩⟩

theorem exists_member_rank (ht : ExplicitTables files groups generation t) {r : Int} {m : MemberRow}
    (hm : m ∈ t.membersAt (.integer r)) : ∃ (i : Nat) (row : DuplicateGroup × GroupReclaim),
      (explicitRows groups)[i]? = some row ∧ r = i ∧
        ∃ e ∈ row.1.files, m = FileEntry.memberRow i generation e := by
  obtain ⟨hm, hsame⟩ := List.mem_filter.1 hm
  rw [ht.members] at hm
  obtain ⟨⟨row, i⟩, hp, hm⟩ := List.mem_flatMap.1 hm
  obtain ⟨e, he, rfl⟩ := List.mem_map.1 hm
  rw [FileEntry.memberRow, Value.same_integer] at hsame
  exact ⟨i, row, List.mem_zipIdx_iff_getElem?.1 hp, hsame.symm, e, he, rfl⟩

/-- A file of a ranked group has one manifest row, and the group's digest in it. -/
theorem filesAt_drawn (hdigests : Digests files)
    (hkeyed : files.Pairwise fun a b => Value.same a.path b.path = false)
    (hdrawn : ∀ g ∈ groups, Drawn files g) (ht : ExplicitTables files groups generation t)
    {row : DuplicateGroup × GroupReclaim} (hrow : row ∈ explicitRows groups) {e : FileEntry}
    (he : e ∈ row.1.files) (i : Nat) :
    ∃ f ∈ files, readEntry f = .ok (row.1.hash, e) ∧
      (FileEntry.memberRow i generation e).path = .text e.path ∧ f.path = .text e.path ∧
      t.filesAt (.text e.path) = [f] ∧
      ∃ d, f.hash = .blob d ∧ d.length = 32 ∧ row.1.hash = Sql.hexText d := by
  obtain ⟨f, hf, hread⟩ := hdrawn _ (ht.measured row hrow).1 e he
  obtain ⟨hpath, hutf, ⟨d, hd, hhash⟩, -⟩ := readEntry_ok hread
  have hlen : d.length = 32 := by
    rcases hdigests f hf with hnull | ⟨d', hd', hlen⟩
    · rw [hd] at hnull; cases hnull
    · rw [hd] at hd'; cases hd'; exact hlen
  have hmem : f ∈ files.filter fun a => Value.same a.path (.text e.path) :=
    List.mem_filter.2 ⟨hf, Value.same_text.2 hpath⟩
  refine ⟨f, hf, hread, ?_, hpath, ?_, d, hd, hlen, hhash⟩
  · rw [FileEntry.memberRow, lossyUtf8_of_isUtf8 _ hutf]
  · rw [ScanTables.filesAt, ht.file]
    exact (filter_key_unique hkeyed hmem).1

theorem castU64_injOn_size {n m : Int} (h : (Value.integer n).key = (Value.integer m).key) :
    castU64 n = castU64 m := by
  have : Value.same (.integer n) (.integer m) = true := Value.same_iff.2 ⟨by simp, h⟩
  rw [Value.same_integer.1 this]

/-- Entries of different objects were read from rows of different objects. -/
theorem objectKey_ne {f f' : FileRow} {hash hash' : Bytes} {e e' : FileEntry}
    (h : readEntry f = .ok (hash, e)) (h' : readEntry f' = .ok (hash', e'))
    (hne : e.objectKey ≠ e'.objectKey) : f.objectKey ≠ f'.objectKey := by
  intro hsame
  obtain ⟨-, -, -, ⟨n, hn, hsize⟩, -, h₁, h₂, h₃, h₄, h₅, h₆⟩ := readEntry_ok h
  obtain ⟨-, -, -, ⟨n', hn', hsize'⟩, -, h₁', h₂', h₃', h₄', h₅', h₆'⟩ := readEntry_ok h'
  simp only [FileRow.objectKey, EmbeddingLike.apply_eq_iff_eq, Prod.mk.injEq] at hsame
  obtain ⟨hdev, hino, hkey, hm, hmn, hc, hcn⟩ := hsame
  rw [hn, hn'] at hkey
  refine hne ?_
  simp only [FileEntry.objectKey, h₁, h₁', h₂, h₂', h₃, h₃', h₄, h₄', h₅, h₅', h₆, h₆', hdev, hino,
    hm, hmn, hc, hcn, hsize, hsize', castU64_injOn_size hkey]

/-- **An explicit publication of manifest rows is valid.** -/
theorem explicit_valid (hdigests : Digests files)
    (hkeyed : files.Pairwise fun a b => Value.same a.path b.path = false)
    (hdrawn : ∀ g ∈ groups, Drawn files g) (ht : ExplicitTables files groups generation t) :
    validateAuthority t scanId .explicit generation = .ok [] := by
  have hrows : ∀ g ∈ t.fileGroup, ∃ (i : Nat) (row : DuplicateGroup × GroupReclaim),
      (explicitRows groups)[i]? = some row ∧ g = explicitRow i row := by
    intro g hg
    rw [ht.rows] at hg
    obtain ⟨p, hp, rfl⟩ := List.mem_map.1 hg
    exact ⟨p.2, p.1, List.mem_zipIdx_iff_getElem?.1 hp, rfl⟩
  have hmembers : ∀ m ∈ t.member, ∃ (i : Nat) (row : DuplicateGroup × GroupReclaim),
      (explicitRows groups)[i]? = some row ∧ ∃ e ∈ row.1.files, m = e.memberRow i generation := by
    intro m hm
    rw [ht.members] at hm
    obtain ⟨⟨row, i⟩, hp, hm⟩ := List.mem_flatMap.1 hm
    obtain ⟨e, he, rfl⟩ := List.mem_map.1 hm
    exact ⟨i, row, List.mem_zipIdx_iff_getElem?.1 hp, e, he, rfl⟩
  have hdraw := fun {row} (hrow : row ∈ explicitRows groups) {e} (he : e ∈ row.1.files) (i : Nat) =>
    filesAt_drawn hdigests hkeyed hdrawn ht hrow he i
  have hfiles : ∀ row ∈ explicitRows groups, ∃ e, e ∈ row.1.files := by
    intro row hrow
    obtain ⟨-, hreclaim, htwo⟩ := ht.measured row hrow
    rw [(physicalReclaim_ok hreclaim).2.1] at htwo
    obtain ⟨e, he, -⟩ := Grouping.exists_ne_of_two_le htwo
    exact ⟨e, he⟩
  refine validateAuthority_complete (fun g hg => ?_) (validateStructure_explicit.2 ?_) fun g hg => ?_
  · obtain ⟨i, row, hrow, rfl⟩ := hrows g hg
    have hrow := List.mem_of_getElem? hrow
    obtain ⟨-, hreclaim, htwo⟩ := ht.measured row hrow
    obtain ⟨-, -, hfit, hpersisted⟩ := physicalReclaim_ok hreclaim
    obtain ⟨e, he⟩ := hfiles row hrow
    obtain ⟨-, -, -, -, -, -, d, -, hlen, hhash⟩ := hdraw hrow he i
    have hsize : row.1.sizeBytes ≤ i64Max :=
      le_trans (Nat.le_mul_of_pos_right _ (by omega)) hfit
    have hstate : badReclaimState (.integer row.2.estimate.state.asI64) = false := by
      cases row.2.estimate.state <;> rfl
    simp only [GroupRow.cells, explicitRow, List.forall_mem_cons]
    refine ⟨badCount_integer.2 (by omega), ?_, badCount_integer.2 (by omega), ?_, ?_,
      badCount_integer.2 (by omega), hstate, fun _ h => absurd h List.not_mem_nil⟩
    · rw [hhash]; exact badHash_hexText hlen
    · rw [castI64_of_le hsize]; exact badCount_integer.2 (by omega)
    · rw [castI64_of_le hpersisted]; exact badCount_integer.2 (by omega)
  · refine ⟨fun m hm => ?_, fun m hm => ?_, fun m hm => ?_, fun m hm => ?_, ?_, fun g hg => ?_,
      fun m hm g hg f hf => ?_⟩
    · obtain ⟨i, row, hrow, e, he, rfl⟩ := hmembers m hm
      have hne := ht.named row (List.mem_of_getElem? hrow) e he
      have hcount : badCount (.integer i) = false := badCount_integer.2 (by omega)
      simp [memberOffence, FileEntry.memberRow, hne, hcount]
    · obtain ⟨i, row, hrow, e, he, rfl⟩ := hmembers m hm
      simp [FileEntry.memberRow, Value.differs]
    · obtain ⟨i, row, hrow, e, he, rfl⟩ := hmembers m hm
      obtain ⟨f, -, -, hpath, -, hone, -⟩ := hdraw (List.mem_of_getElem? hrow) he i
      rw [hpath, hone]
      exact List.cons_ne_nil _ _
    · obtain ⟨i, row, hrow, e, he, rfl⟩ := hmembers m hm
      have hone := groupsAt_rank explicitRow_rank ht.rows hrow
      rw [FileEntry.memberRow, hone]
      exact List.cons_ne_nil _ _
    · refine Sql.repeated_eq_zero.2 (List.Nodup.map_on ?_ ht.paths)
      intro v hv w hw hkey
      obtain ⟨m, hm, rfl⟩ := List.mem_map.1 hv
      obtain ⟨m', hm', rfl⟩ := List.mem_map.1 hw
      obtain ⟨i, -, -, e, -, rfl⟩ := hmembers m hm
      obtain ⟨i', -, -, e', -, rfl⟩ := hmembers m' hm'
      exact Value.key_eq_text.1 hkey
    · obtain ⟨i, row, hrow, rfl⟩ := hrows g hg
      obtain ⟨e, he⟩ := hfiles row (List.mem_of_getElem? hrow)
      rw [explicitRow_rank, membersAt_rank ht hrow]
      refine ⟨List.ne_nil_of_mem (List.mem_map_of_mem he), fun m hm => ?_⟩
      obtain ⟨e, -, rfl⟩ := List.mem_map.1 hm
      simp [FileEntry.memberRow]
    · obtain ⟨i, row, hrow, e, he, rfl⟩ := hmembers m hm
      rw [FileEntry.memberRow, groupsAt_rank explicitRow_rank ht.rows hrow, List.mem_singleton] at hg
      subst hg
      obtain ⟨f', -, -, hpath, -, hone, d, hd, hlen, hhash⟩ := hdraw (List.mem_of_getElem? hrow) he i
      rw [hpath, hone, List.mem_singleton] at hf
      subst hf
      exact ⟨d, hd, hlen, by rw [explicitRow, hhash, Sql.unhex_hexText]⟩
  · obtain ⟨i, row, hrow, rfl⟩ := hrows g hg
    obtain ⟨-, hreclaim, -⟩ := ht.measured row (List.mem_of_getElem? hrow)
    have hcount : memberCount t .explicit (explicitRow i row) = row.2.observedPaths := by
      rw [memberCount, explicitRow_rank, membersAt_rank ht hrow, List.length_map,
        (physicalReclaim_ok hreclaim).1]
    unfold disagrees
    rw [hcount, Value.differs_eq_not_same (by simp) (by simp [explicitRow]), Bool.not_eq_false']
    exact Value.same_integer.2 rfl

/-- What a reader of a rank reads. -/
theorem explicit_memberRows (hdigests : Digests files)
    (hkeyed : files.Pairwise fun a b => Value.same a.path b.path = false)
    (hdrawn : ∀ g ∈ groups, Drawn files g) (ht : ExplicitTables files groups generation t)
    {r : Int} {f : FileRow}
    (h : f ∈ (publishedSnapshot scanId generation (.explicit groups) t).memberRows r) :
    ∃ m ∈ t.membersAt (.integer r), m.path = f.path := by
  unfold Snapshot.memberRows at h
  simp only [publishedSnapshot, PublishMode.membership, List.mem_flatMap, Sql.mem_orderBy] at h
  obtain ⟨m, hm, hf⟩ := h
  obtain ⟨i, row, hrow, rfl, e, he, rfl⟩ := exists_member_rank ht hm
  obtain ⟨f', -, -, hpath, hfpath, hone, -⟩ :=
    filesAt_drawn hdigests hkeyed hdrawn ht (List.mem_of_getElem? hrow) he i
  rw [hpath, hone, List.mem_singleton] at hf
  exact ⟨_, hm, by rw [hpath, hf, hfpath]⟩

/-- **An explicit publication of manifest rows is what readers demand.** -/
theorem explicit_established (hdigests : Digests files)
    (hkeyed : files.Pairwise fun a b => Value.same a.path b.path = false) (hpos : 0 < generation)
    (hdrawn : ∀ g ∈ groups, Drawn files g) (ht : ExplicitTables files groups generation t) :
    Established scanId generation (.explicit groups) files t := by
  have hread : ∀ {i : Nat} {row : DuplicateGroup × GroupReclaim}, (explicitRows groups)[i]? = some row →
      ∀ e ∈ row.1.files, ∀ f, t.filesAt (.text e.path) = [f] →
        (FileEntry.memberRow i generation e).path = .text e.path →
          f ∈ (publishedSnapshot scanId generation (.explicit groups) t).memberRows i := by
    intro i row hrow e he f hone hpath
    unfold Snapshot.memberRows
    simp only [publishedSnapshot, PublishMode.membership, List.mem_flatMap, Sql.mem_orderBy,
      membersAt_rank ht hrow]
    refine ⟨_, List.mem_map_of_mem he, ?_⟩
    rw [hpath, hone]
    exact List.mem_singleton_self f
  refine ⟨⟨_, _, ht.authority, decodeAuthority_published (.explicit groups) hpos⟩,
    explicit_valid hdigests hkeyed hdrawn ht, ?_, fun i paths hpaths => ?_,
    fun r r' hne f hf f' hf' => ?_, fun i hi => ?_⟩
  · rw [ht.rows, List.map_map, PublishMode.pathnames, List.length_map, List.range_eq_range',
      ← List.zipIdx_map_snd, List.map_map]
    rfl
  · rw [PublishMode.pathnames, List.getElem?_map, Option.map_eq_some_iff] at hpaths
    obtain ⟨row, hrow, rfl⟩ := hpaths
    have hpaths : ∀ e ∈ row.1.files,
        (t.filesAt (FileEntry.memberRow i generation e).path).map FileRow.path = [.text e.path] := by
      intro e he
      obtain ⟨f, -, -, hpath, hfpath, hone, -⟩ :=
        filesAt_drawn hdigests hkeyed hdrawn ht (List.mem_of_getElem? hrow) he i
      rw [hpath, hone, List.map_singleton, hfpath]
    unfold Snapshot.memberRows
    simp only [publishedSnapshot, PublishMode.membership]
    refine (((Sql.orderBy_perm _ _).flatMap_right _).map _).trans ?_
    rw [membersAt_rank ht hrow, List.flatMap_map, List.map_flatMap,
      List.flatMap_congr hpaths, ← List.map_eq_flatMap]
  · rw [Bool.eq_false_iff]
    intro hsame
    obtain ⟨m, hm, hpath⟩ := explicit_memberRows hdigests hkeyed hdrawn ht hf
    obtain ⟨m', hm', hpath'⟩ := explicit_memberRows hdigests hkeyed hdrawn ht hf'
    obtain ⟨i, row, -, rfl, e, -, rfl⟩ := exists_member_rank ht hm
    obtain ⟨i', row', -, rfl, e', -, rfl⟩ := exists_member_rank ht hm'
    rw [← hpath, ← hpath', FileEntry.memberRow, FileEntry.memberRow, Value.same_text] at hsame
    have hone := List.inj_on_of_nodup_map ht.paths (List.mem_filter.1 hm).1 (List.mem_filter.1 hm').1
      (by rw [FileEntry.memberRow, FileEntry.memberRow, hsame])
    rw [FileEntry.memberRow, FileEntry.memberRow, MemberRow.mk.injEq, Value.integer.injEq] at hone
    exact hne hone.1
  · rw [PublishMode.pathnames, List.length_map] at hi
    have hrow : (explicitRows groups)[i]? = some (explicitRows groups)[i] := List.getElem?_eq_getElem hi
    obtain ⟨-, hreclaim, htwo⟩ := ht.measured _ (List.mem_of_getElem? hrow)
    rw [(physicalReclaim_ok hreclaim).2.1] at htwo
    obtain ⟨e, he, e', he', hobjects⟩ := Grouping.exists_ne_of_two_le htwo
    obtain ⟨f, -, hf, hpath, -, hone, -⟩ :=
      filesAt_drawn hdigests hkeyed hdrawn ht (List.mem_of_getElem? hrow) he i
    obtain ⟨f', -, hf', hpath', -, hone', -⟩ :=
      filesAt_drawn hdigests hkeyed hdrawn ht (List.mem_of_getElem? hrow) he' i
    exact ⟨f, hread hrow e he f hone hpath, f', hread hrow e' he' f' hone' hpath',
      objectKey_ne hf hf' hobjects⟩

end Explicit

/-! ## Both modes -/

/-- The publications of a manifest: its derived one, and those of its groups after verification. -/
inductive OfManifest (files : List FileRow) : PublishMode → Prop where
  | derived : OfManifest files .derived
  | explicit (filesEqual : Bytes → Bytes → Except AppError Bool) (groups verified : List DuplicateGroup) :
      duplicateGroups files = .ok groups → verifyGroups filesEqual groups = .ok verified →
      OfManifest files (.explicit verified)

/-- No derived group has a negative size. -/
def Sized (files : List FileRow) : PublishMode → Prop
  | .derived => ∀ x ∈ groupRows (groupObjects files), Value.less x.size (.integer 0) = false
  | .explicit _ => True

instance (files : List FileRow) (mode : PublishMode) : Decidable (Sized files mode) :=
  match mode with
  | .derived => inferInstanceAs
      (Decidable (∀ x ∈ groupRows (groupObjects files), Value.less x.size (.integer 0) = false))
  | .explicit _ => isTrue trivial

/-- **A publication that succeeds is what every reader demands exactly when no derived group has a
negative size, and one that is refused changes nothing.** -/
theorem publication_establishes (scanId : Int) (hasScan : Bool) (t : ScanTables) (mode : PublishMode)
    (hkeyed : t.Keyed) (hdigests : Digests t.file) (hmode : OfManifest t.file mode) :
    (∀ generation t', publishResults scanId hasScan mode t = (.ok generation, t') →
      (Established scanId generation mode t.file t' ↔ Sized t.file mode)) ∧
    (∀ e t', publishResults scanId hasScan mode t = (.error e, t') → t' = t) := by
  refine ⟨fun generation t' h => ?_, fun e t' h => Tx.atomically_error h⟩
  cases hmode with
  | derived =>
    obtain ⟨hpos, ht⟩ := derivedTables_ok h
    rw [derived_established hdigests hkeyed.paths hpos ht, Sized]
    refine forall_congr' fun x => ?_
    rw [derivedFigures, Sql.mem_orderBy]
  | explicit filesEqual groups verified hgroups hverified =>
    obtain ⟨hpos, ht⟩ := explicitTables_ok h
    have hdrawn := drawn_verifyGroups hverified (drawn_duplicateGroups hgroups)
    exact iff_of_true (explicit_established hdigests hkeyed.paths hpos hdrawn ht) trivial

/-- Two allocations of one digest, of the given size, without recorded link counts. -/
def sizedFiles (size : Int) : List FileRow :=
  [97, 98].map fun letter =>
    { path := .text [47, letter]
      size := .integer size
      mtime := 0
      mtimeNsec := 0
      ctimeSec := 0
      ctimeNsec := 0
      identityVersion := 1
      device := 1
      inode := letter.val
      nlink := .integer 0
      hash := .blob (List.replicate 32 7) }

/-- A scan whose manifest is those two rows. -/
def sizedTables (size : Int) : ScanTables := ⟨sizedFiles size, [], [], none, none⟩

theorem sizedTables_keyed (size : Int) : (sizedTables size).Keyed :=
  ⟨by simp [sizedTables, sizedFiles, Value.same, Value.key], List.Pairwise.nil⟩

theorem sizedTables_digests (size : Int) : Digests (sizedTables size).file := by
  intro f hf
  obtain ⟨letter, -, rfl⟩ := List.mem_map.1 hf
  exact .inr ⟨_, rfl, List.length_replicate⟩

theorem publication_establishes_sample :
    Established 1 1 .derived (sizedFiles 10) (publishResults 1 true .derived (sizedTables 10)).2 ∧
      (publishResults 1 false .derived (sizedTables 10)).2 = sizedTables 10 :=
  ⟨((publication_establishes 1 true (sizedTables 10) .derived (sizedTables_keyed 10)
      (sizedTables_digests 10) .derived).1 1 _ rfl).2 (by decide +kernel),
    (publication_establishes 1 false (sizedTables 10) .derived (sizedTables_keyed 10)
      (sizedTables_digests 10) .derived).2 _ _ rfl⟩

/-- A size that does not fit its column is published, and refused by the next reader. -/
theorem not_publication_establishes :
    ¬∀ (t : ScanTables) (mode : PublishMode), t.Keyed → Digests t.file → OfManifest t.file mode →
      ∀ generation t', publishResults 1 true mode t = (.ok generation, t') →
        Established 1 generation mode t.file t' := by
  intro h
  have hvalid := (h (sizedTables (-1)) .derived (sizedTables_keyed (-1)) (sizedTables_digests (-1))
    .derived 1 _ rfl).valid
  exact absurd (congrArg Except.isOk hvalid) (by decide +kernel)

end DedupCommando
