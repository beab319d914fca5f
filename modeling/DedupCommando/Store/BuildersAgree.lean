import DedupCommando.Store.BuilderFigures
import DedupCommando.Store.DerivedAccepts

/-!
# The two builders of results agree

* `foldl_pushEntry_segments`, `groupedRows_segments` — the groups in memory are the digests, in order.
* `Walked` — a manifest as a walk and a hashing pass leave it.
* `duplicateGroups_holds`, `measured_iff` — every group holds one digest, and is measured with it.
* `ranked_rows` — the two orders rank the same figures alike.
* `builders_agree` — both modes publish the same summaries and totals or both refuse, unless a
  manifest that is accepted has a digest with a negative size or a row without a pathname.
-/

set_option autoImplicit false

namespace DedupCommando

open Sql (Value)

/-! ## The groups in memory -/

theorem foldl_pushEntry_same {g : DuplicateGroup} {groups : List DuplicateGroup} :
    ∀ {entries : List (Bytes × FileEntry)}, (∀ x ∈ entries, x.1 = g.hash) →
      entries.foldl pushEntry (groups ++ [g]) =
        groups ++ [{ g with files := g.files ++ entries.map Prod.snd }]
  | [], _ => by simp
  | x :: entries, h => by
    obtain ⟨hx, hentries⟩ := List.forall_mem_cons.1 h
    have hpush : pushEntry (groups ++ [g]) x = groups ++ [{ g with files := g.files ++ [x.2] }] := by
      unfold pushEntry
      simp only [List.getLast?_append, List.getLast?_singleton, Option.some_or, List.dropLast_concat]
      rw [if_pos hx.symm]
    rw [List.foldl_cons, hpush, foldl_pushEntry_same (g := { g with files := g.files ++ [x.2] }) hentries]
    simp

/-- A run of one digest makes one group. -/
theorem foldl_pushEntry_run {hash : Bytes} {groups : List DuplicateGroup} {x : Bytes × FileEntry}
    {entries : List (Bytes × FileEntry)} (h : ∀ y ∈ x :: entries, y.1 = hash)
    (hlast : ∀ g ∈ groups, g.hash ≠ hash) :
    (x :: entries).foldl pushEntry groups =
      groups ++ [⟨groups.length, x.2.size, hash, (x :: entries).map Prod.snd⟩] := by
  obtain ⟨rfl, hentries⟩ := List.forall_mem_cons.1 h
  have hopen : pushEntry groups x = groups ++ [⟨groups.length, x.2.size, x.1, [x.2]⟩] := by
    unfold pushEntry
    simp only
    split
    · rename_i g hg
      rw [if_neg (hlast g (List.mem_of_getLast? hg))]
    · rfl
  rw [List.foldl_cons, hopen, foldl_pushEntry_same hentries]
  rfl

/-- What a group in memory holds of one run of entries. -/
def HoldsRun (hash : Bytes) (entries : List (Bytes × FileEntry)) (g : DuplicateGroup) : Prop :=
  g.hash = hash ∧ g.files = entries.map Prod.snd ∧ ∃ x ∈ entries, g.sizeBytes = x.2.size

theorem foldl_pushEntry_segments {δ : Type} {hashOf : δ → Bytes} {run : δ → List (Bytes × FileEntry)} :
    ∀ {ds : List δ}, (ds.map hashOf).Nodup → (∀ d ∈ ds, run d ≠ [] ∧ ∀ x ∈ run d, x.1 = hashOf d) →
      ∀ (groups : List DuplicateGroup), (∀ g ∈ groups, ∀ d ∈ ds, g.hash ≠ hashOf d) →
        ∃ made, (ds.flatMap run).foldl pushEntry groups = groups ++ made ∧
          List.Forall₂ (fun d g => HoldsRun (hashOf d) (run d) g) ds made
  | [], _, _, groups, _ => ⟨[], by simp, .nil⟩
  | d :: ds, hnd, hruns, groups, hfresh => by
    obtain ⟨hnew, hnd⟩ := List.nodup_cons.1 hnd
    obtain ⟨⟨hne, hhash⟩, hruns⟩ := List.forall_mem_cons.1 hruns
    obtain ⟨x, xs, hx⟩ := List.exists_cons_of_ne_nil hne
    rw [List.flatMap_cons, List.foldl_append, hx,
      foldl_pushEntry_run (by rw [← hx]; exact hhash) fun g hg => hfresh g hg d List.mem_cons_self]
    obtain ⟨made, hmade, hholds⟩ := foldl_pushEntry_segments hnd hruns
      (groups ++ [⟨groups.length, x.2.size, hashOf d, (x :: xs).map Prod.snd⟩]) fun g hg e he => by
        rcases List.mem_append.1 hg with hg | hg
        · exact hfresh g hg e (List.mem_cons_of_mem _ he)
        · rw [List.mem_singleton.1 hg]
          intro hsame
          have hsame : hashOf d = hashOf e := hsame
          exact hnew (hsame ▸ List.mem_map_of_mem he)
    refine ⟨_ :: made, by rw [hmade, List.append_assoc]; rfl, .cons ⟨rfl, ?_, x, ?_, rfl⟩ hholds⟩
    · rw [hx]
    · rw [hx]; exact List.mem_cons_self

/-! ## The rows of the groups -/

theorem digestGroups_sorted (files : List FileRow) :
    ((digestGroups files).map Prod.fst).Pairwise (· < ·) := by
  have hsub : ((digestGroups files).map Prod.fst).Sublist
      ((Grouping.groupByKey FileRow.digestKey (hashed files)).map Prod.fst) :=
    List.filter_sublist.map _
  rw [Grouping.map_fst_groupByKey] at hsub
  exact (Grouping.keysOf_sorted _ _).sublist hsub

theorem mem_groupedRows {files : List FileRow} {f : FileRow} :
    f ∈ groupedRows files ↔ ∃ d ∈ digestGroups files, f ∈ d.2 := by
  rw [groupedRows_eq, Sql.mem_orderBy, List.mem_filter]
  simp only [decide_eq_true_eq, List.mem_map]
  constructor
  · rintro ⟨hf, hne, d, hd, hkey⟩
    refine ⟨d, hd, ?_⟩
    rw [(mem_digestGroups hd).2.1, Grouping.mem_under, mem_hashed]
    exact ⟨⟨hf, hne⟩, hkey.symm⟩
  · rintro ⟨d, hd, hf⟩
    obtain ⟨hfiles, hne, hkey⟩ := mem_digestGroups_row hd hf
    exact ⟨hfiles, hne, d, hd, hkey.symm⟩

/-- The rows of one digest as the statement orders them. -/
def rowsOf (files : List FileRow) (k : ℕ ×ₗ ℚ ×ₗ Bytes) : List FileRow :=
  Grouping.under FileRow.digestKey k (groupedRows files)

theorem rowsOf_perm {files : List FileRow} {d : (ℕ ×ₗ ℚ ×ₗ Bytes) × List FileRow}
    (hd : d ∈ digestGroups files) : (rowsOf files d.1).Perm d.2 := by
  rw [rowsOf, groupedRows_eq]
  refine ((Sql.orderBy_perm _ _).filter _).trans (List.Perm.of_eq ?_)
  rw [(mem_digestGroups hd).2.1, hashed, Grouping.under, List.filter_filter, List.filter_filter]
  refine List.filter_congr fun f _ => ?_
  have hmem : d.1 ∈ (digestGroups files).map Prod.fst := List.mem_map_of_mem hd
  rw [Bool.eq_iff_iff]
  simp only [Bool.and_eq_true, decide_eq_true_eq]
  constructor
  · rintro ⟨hkey, hne, -⟩; exact ⟨hkey, hne⟩
  · rintro ⟨hkey, hne⟩; exact ⟨hkey, hne, by rw [show f.hash.key = d.1 from hkey]; exact hmem⟩

/-- The rows of the groups are the rows of the digests, one digest after the other. -/
theorem groupedRows_segments (files : List FileRow) :
    groupedRows files = (digestGroups files).flatMap fun d => rowsOf files d.1 := by
  have hsorted : (groupedRows files).Pairwise fun a b => a.digestKey ≤ b.digestKey := by
    rw [groupedRows_eq]
    refine (Sql.orderBy_sorted _ _).imp fun {a b} h => ?_
    exact Prod.Lex.monotone_fst _ _ h
  have hkeys : (digestGroups files).map Prod.fst = Grouping.keysOf FileRow.digestKey (groupedRows files) := by
    refine Grouping.eq_keysOf (digestGroups_sorted files) fun k => ?_
    constructor
    · intro hk
      obtain ⟨d, hd, rfl⟩ := List.mem_map.1 hk
      obtain ⟨f, hf⟩ := List.exists_mem_of_ne_nil _ (mem_digestGroups hd).1
      exact ⟨f, mem_groupedRows.2 ⟨d, hd, hf⟩, (mem_digestGroups_row hd hf).2.2⟩
    · rintro ⟨f, hf, rfl⟩
      obtain ⟨d, hd, hf⟩ := mem_groupedRows.1 hf
      exact List.mem_map.2 ⟨d, hd, (mem_digestGroups_row hd hf).2.2.symm⟩
  conv_lhs => rw [← Grouping.flatMap_groupByKey hsorted]
  rw [Grouping.groupByKey_eq, ← hkeys, List.map_map, List.flatMap_map]
  rfl

/-! ## Manifests -/

/-- A manifest of UTF-8 pathnames and digests, in words of 64 bits, with one size for each digest.
Sizes and link counts may be cells of any class. -/
structure Walked (files : List FileRow) : Prop where
  paths : ∀ f ∈ files, ∃ b, f.path = .text b ∧ isUtf8 b = true
  digests : ∀ f ∈ files, f.hash = .null ∨ ∃ d, f.hash = .blob d
  words : ∀ f ∈ files, Words f
  sizes : ∀ f ∈ files, ∀ f' ∈ files, f.hash ≠ .null → f.hash = f'.hash → f.size = f'.size

section Walked

variable {files : List FileRow} (hw : Walked files)
include hw

/-- The rows of one digest have one blob and one size. -/
theorem Walked.digest {d : (ℕ ×ₗ ℚ ×ₗ Bytes) × List FileRow} (hd : d ∈ digestGroups files) :
    ∃ (b : Bytes) (size : Value), d.1 = (Value.blob b).key ∧ (figuresOf d.2).digest = .blob b ∧
      ∀ f ∈ d.2, f.hash = .blob b ∧ f.size = size := by
  obtain ⟨f, hf, hdigest⟩ := figuresOf_digest (mem_digestGroups hd).1
  obtain ⟨hfiles, hne, hkey⟩ := mem_digestGroups_row hd hf
  obtain ⟨b, hb⟩ := (hw.digests f hfiles).resolve_left hne
  refine ⟨b, f.size, by rw [← hkey, hb], by rw [hdigest, hb], fun f' hf' => ?_⟩
  obtain ⟨hfiles', hne', hkey'⟩ := mem_digestGroups_row hd hf'
  have hb' : f'.hash = .blob b := by
    rw [← hkey, hb] at hkey'
    exact Value.key_eq_blob.1 hkey'
  exact ⟨hb', hw.sizes f' hfiles' f hfiles hne' (hb'.trans hb.symm)⟩

/-- A manifest that the refusal lets pass can be read into memory. -/
theorem Walked.readable (hrefuse : refuseUntrustworthyGroupObjects files = .ok ()) :
    ∀ f ∈ groupedRows files, Readable f := by
  intro f hf
  obtain ⟨d, hd, hf⟩ := mem_groupedRows.1 hf
  obtain ⟨b, size, -, -, hrows⟩ := hw.digest hd
  obtain ⟨o, ho, hfo⟩ := exists_objectsOf hf
  have htrust := refuseUntrustworthyGroupObjects_ok.1 hrefuse d hd o ho
  have hsplit := htrust
  simp only [untrustworthy, Bool.or_eq_false_iff, decide_eq_false_iff_not, not_not] at hsplit
  obtain ⟨n, hn⟩ := typeof_integer.1 hsplit.1.2
  obtain ⟨⟨m, hm⟩, -⟩ := (untrustworthy_eq_false (objectsOf_ne_nil ho) hn).1 htrust
  -- the size of the figures is the size of a row
  have hsize : size = .integer n := by
    have hmin : Sql.minimum (((objectsOf d.2).map ObjectRow.of).map ObjectRow.size) = .integer n := hn
    have hmem := Sql.minimum_mem (by rw [hmin]; simp :
      Sql.minimum (((objectsOf d.2).map ObjectRow.of).map ObjectRow.size) ≠ .null)
    rw [hmin] at hmem
    obtain ⟨r, hr, hrn⟩ := List.mem_map.1 hmem
    obtain ⟨o', ho', rfl⟩ := List.mem_map.1 hr
    obtain ⟨f', rest, rfl⟩ := List.exists_cons_of_ne_nil (objectsOf_ne_nil ho')
    rw [← hrn, ← (hrows f' (mem_of_objectsOf ho' f' List.mem_cons_self)).2]
    rfl
  exact ⟨hw.paths f (mem_digestGroups_row hd hf).1, ⟨n, by rw [(hrows f hf).2, hsize]⟩,
    ⟨b, (hrows f hf).1⟩, ⟨m, hm f hfo⟩⟩

/-- **Every group in memory holds the rows of one digest, in the order of the digests.** -/
theorem Walked.duplicateGroups_holds {groups : List DuplicateGroup}
    (h : duplicateGroups files = .ok groups) :
    (∀ f ∈ groupedRows files, Readable f) ∧
      List.Forall₂ (fun d g => g.hash = Sql.lowerHex (figuresOf d.2).digest ∧
        ∃ n, HoldsDigest d.2 (rowsOf files d.1) g n) (digestGroups files) groups := by
  unfold duplicateGroups at h
  split at h
  · cases h
  rename_i entries hentries
  cases h
  obtain ⟨hread, rfl⟩ := readEntries_iff.1 hentries
  refine ⟨hread, ?_⟩
  rw [groupedRows_segments, List.map_flatMap]
  have hrun : ∀ d ∈ digestGroups files, (rowsOf files d.1).map (fun f => (Sql.lowerHex f.hash, entryOf f)) ≠ [] ∧
      ∀ x ∈ (rowsOf files d.1).map (fun f => (Sql.lowerHex f.hash, entryOf f)),
        x.1 = Sql.lowerHex (figuresOf d.2).digest := by
    intro d hd
    obtain ⟨b, size, -, hdigest, hrows⟩ := hw.digest hd
    constructor
    · intro hnil
      rw [List.map_eq_nil_iff] at hnil
      have := (rowsOf_perm hd).symm
      rw [hnil, List.perm_nil] at this
      exact (mem_digestGroups hd).1 this
    · intro x hx
      obtain ⟨f, hf, rfl⟩ := List.mem_map.1 hx
      rw [hdigest, (hrows f ((rowsOf_perm hd).mem_iff.1 hf)).1]
  have hnd : ((digestGroups files).map fun d => Sql.lowerHex (figuresOf d.2).digest).Nodup := by
    refine List.Nodup.map_on (fun d hd d' hd' htext => ?_) (List.Nodup.of_map _ (nodup_digestGroups files))
    obtain ⟨b, -, hk, hdigest, -⟩ := hw.digest hd
    obtain ⟨b', -, hk', hdigest', -⟩ := hw.digest hd'
    rw [hdigest, hdigest'] at htext
    have hbb : b = b' := Sql.hexText_injective htext
    subst hbb
    have hkk : d.1 = d'.1 := hk.trans hk'.symm
    exact Prod.ext hkk (by rw [(mem_digestGroups hd).2.1, (mem_digestGroups hd').2.1, hkk])
  obtain ⟨made, hmade, hholds⟩ := foldl_pushEntry_segments hnd hrun []
    fun g hg => absurd hg List.not_mem_nil
  rw [hmade, List.nil_append]
  have hmem : ∀ d ∈ digestGroups files, d ∈ digestGroups files := fun _ h => h
  refine List.Forall₂.imp ?_ ((List.forall₂_and_left (p := (· ∈ digestGroups files)) _ _).2 ⟨hmem, hholds⟩)
  rintro d g ⟨hd, hhash, hfiles, x, hx, hsize⟩
  obtain ⟨b, size, -, -, hrows⟩ := hw.digest hd
  obtain ⟨f, hf, rfl⟩ := List.mem_map.1 hx
  have hf := (rowsOf_perm hd).mem_iff.1 hf
  have hreadable : ∀ f ∈ d.2, Readable f := fun f hf => hread f (mem_groupedRows.2 ⟨d, hd, hf⟩)
  obtain ⟨n, hn⟩ := (hreadable f hf).size
  have hsz : size = .integer n := by rw [← (hrows f hf).2, hn]
  refine ⟨hhash, n, rowsOf_perm hd, ?_, ?_, hreadable,
    fun f hf => hw.words f (mem_digestGroups_row hd hf).1, fun f hf => by rw [(hrows f hf).2, hsz],
    (mem_digestGroups hd).2.2⟩
  · rw [hfiles, List.map_map]; rfl
  · rw [hsize]
    simp [entryOf, hn, intOf]

end Walked

/-! ## The figures in memory -/

theorem measureGroups_total {groups : List DuplicateGroup}
    (h : ∀ g ∈ groups, ∃ r, g.physicalReclaim = .ok r) : ∃ rows, measureGroups groups = .ok rows := by
  induction groups with
  | nil => exact ⟨[], rfl⟩
  | cons g gs ih =>
    obtain ⟨⟨r, hr⟩, hgs⟩ := List.forall_mem_cons.1 h
    obtain ⟨rows, hrows⟩ := ih hgs
    unfold measureGroups
    rw [hr, hrows]
    exact ⟨_, rfl⟩

/-- Where every measured group has two objects, none is left out. -/
theorem measureGroups_forall₂ {groups : List DuplicateGroup}
    (htwo : ∀ g ∈ groups, ∀ r, g.physicalReclaim = .ok r → 2 ≤ r.objectCount) :
    ∀ {rows : List (DuplicateGroup × GroupReclaim)}, measureGroups groups = .ok rows →
      List.Forall₂ (fun g row => row.1 = g ∧ g.physicalReclaim = .ok row.2) groups rows := by
  induction groups with
  | nil => intro rows h; cases h; exact .nil
  | cons g gs ih =>
    intro rows h
    unfold measureGroups at h
    split at h
    · cases h
    rename_i r hr
    split at h
    · cases h
    rename_i rows' hrows
    rw [if_pos (htwo g List.mem_cons_self r hr)] at h
    cases h
    exact .cons ⟨rfl, hr⟩ (ih (fun g hg => htwo g (List.mem_cons_of_mem _ hg)) hrows)

/-- The figure of a digest and the measured group that holds it say the same. -/
structure SameFigures (row : DuplicateGroup × GroupReclaim) (x : GroupFigures) : Prop where
  hash : row.1.hash = Sql.lowerHex x.digest
  paths : row.2.observedPaths = x.fileCount
  objects : row.2.objectCount = x.objectCount
  state : row.2.estimate.state.asI64 = x.state
  sizeFits : row.1.sizeBytes ≤ i64Max
  reclaimFits : row.2.estimate.persistedBytes ≤ i64Max
  size : x.size = .integer row.1.sizeBytes
  reclaim : x.reclaim = .integer row.2.estimate.persistedBytes
  guaranteed : x.guaranteed = .integer row.2.estimate.guaranteedBytes

theorem SameFigures.row {row : DuplicateGroup × GroupReclaim} {x : GroupFigures} (h : SameFigures row x)
    (rank : Nat) : explicitRow rank row = x.row rank := by
  unfold explicitRow GroupFigures.row
  rw [h.hash, h.paths, h.objects, h.state, h.size, h.reclaim, castI64_of_le h.sizeFits,
    castI64_of_le h.reclaimFits]

theorem key_lt_integer {a b : Nat} : (Value.integer a).key < (Value.integer b).key ↔ a < b := by
  simp [Value.key, Prod.Lex.lt_iff]

theorem key_eq_integer {a b : Nat} : (Value.integer a).key = (Value.integer b).key ↔ a = b := by
  simp [Value.key]

/-- The two orders place the same figures alike. -/
theorem SameFigures.order {row row' : DuplicateGroup × GroupReclaim} {x x' : GroupFigures}
    (h : SameFigures row x) (h' : SameFigures row' x') :
    explicitOrder row ≤ explicitOrder row' ↔ x.order ≤ x'.order := by
  simp only [explicitOrder, GroupFigures.order, Prod.Lex.toLex_le_toLex, OrderDual.toDual_lt_toDual,
    OrderDual.toDual_inj, h.guaranteed, h'.guaranteed, h.reclaim, h'.reclaim, key_lt_integer,
    key_eq_integer,
    h.hash, h'.hash, ReclaimEstimate.orderKey]

theorem forall₂_orderedInsert {α β : Type} {R : α → β → Prop} {r : α → α → Prop} {s : β → β → Prop}
    [DecidableRel r] [DecidableRel s] (h : ∀ a a' b b', R a b → R a' b' → (r a a' ↔ s b b')) {a : α}
    {b : β} (hab : R a b) : ∀ {as : List α} {bs : List β}, List.Forall₂ R as bs →
      List.Forall₂ R (as.orderedInsert r a) (bs.orderedInsert s b)
  | _, _, .nil => .cons hab .nil
  | a' :: as, b' :: bs, .cons hab' hrest => by
    unfold List.orderedInsert
    by_cases hr : r a a'
    · rw [if_pos hr, if_pos ((h _ _ _ _ hab hab').1 hr)]
      exact .cons hab (.cons hab' hrest)
    · rw [if_neg hr, if_neg fun hs => hr ((h _ _ _ _ hab hab').2 hs)]
      exact .cons hab' (forall₂_orderedInsert h hab hrest)

/-- Related rows stay related in the orders of related keys. -/
theorem forall₂_insertionSort {α β : Type} {R : α → β → Prop} {r : α → α → Prop} {s : β → β → Prop}
    [DecidableRel r] [DecidableRel s] (h : ∀ a a' b b', R a b → R a' b' → (r a a' ↔ s b b')) :
    ∀ {as : List α} {bs : List β}, List.Forall₂ R as bs →
      List.Forall₂ R (as.insertionSort r) (bs.insertionSort s)
  | _, _, .nil => .nil
  | _, _, .cons hab hrest => forall₂_orderedInsert h hab (forall₂_insertionSort h hrest)

theorem ranked_eq {rows : List (DuplicateGroup × GroupReclaim)} {figures : List GroupFigures}
    (h : List.Forall₂ SameFigures rows figures) (rank : Nat) :
    (rows.zipIdx rank).map (fun p => explicitRow p.2 p.1) =
      (figures.zipIdx rank).map fun p => GroupFigures.row p.2 p.1 := by
  induction h generalizing rank with
  | nil => rfl
  | cons hrow _ ih => rw [List.zipIdx_cons, List.zipIdx_cons, List.map_cons, List.map_cons, hrow.row, ih]

/-- **The two builders rank the same rows.** -/
theorem ranked_rows {rows : List (DuplicateGroup × GroupReclaim)} {figures : List GroupFigures}
    (h : List.Forall₂ SameFigures rows figures) :
    ((Sql.orderBy explicitOrder rows).zipIdx.map fun p => explicitRow p.2 p.1) =
      (Sql.orderBy GroupFigures.order figures).mapIdx GroupFigures.row := by
  have hsorted := forall₂_insertionSort
    (r := fun a b => explicitOrder a ≤ explicitOrder b) (s := fun a b => a.order ≤ b.order)
    (fun _ _ _ _ hab hab' => SameFigures.order hab hab') h
  rw [List.mapIdx_eq_zipIdx_map]
  exact ranked_eq hsorted 0

/-! ## The members in memory -/

theorem insertMembers_total (rank : Nat) (generation : Int) {files : List FileEntry} :
    ∀ {t : ScanTables}, (∀ e ∈ files, lossyUtf8 e.path ≠ []) →
      (t.member.map MemberRow.path ++ files.map fun e => Value.text (lossyUtf8 e.path)).Nodup →
      ∃ t', insertMembers rank generation files t = (.ok (), t') := by
  induction files with
  | nil => exact fun _ _ => ⟨_, rfl⟩
  | cons e es ih =>
    intro t hne hnd
    obtain ⟨he, hes⟩ := List.forall_mem_cons.1 hne
    have hnew : (t.member.any fun m => decide (m.path = .text (lossyUtf8 e.path))) = false := by
      refine List.any_eq_false.2 fun m hm hsame => ?_
      exact (List.nodup_append.1 hnd).2.2 _ (List.mem_map_of_mem hm) _ List.mem_cons_self
        (of_decide_eq_true hsame)
    unfold insertMembers
    simp only
    rw [if_neg he, hnew]
    refine ih hes ?_
    rw [List.map_append, List.append_assoc]
    exact hnd

theorem insertGroups_total {generation : Int} {rows : List (DuplicateGroup × GroupReclaim)} :
    ∀ {rank : Nat} {t : ScanTables}, (∀ row ∈ rows, ∀ e ∈ row.1.files, lossyUtf8 e.path ≠ []) →
      (t.member.map MemberRow.path ++ rows.flatMap fun row : DuplicateGroup × GroupReclaim =>
        row.1.files.map fun e => Value.text (lossyUtf8 e.path)).Nodup →
      ∃ t', insertGroups generation rank rows t = (.ok (), t') := by
  induction rows with
  | nil => exact fun _ _ => ⟨_, rfl⟩
  | cons row rows ih =>
    intro rank t hne hnd
    obtain ⟨hrow, hrows⟩ := List.forall_mem_cons.1 hne
    rw [List.flatMap_cons, ← List.append_assoc] at hnd
    obtain ⟨t₁, ht₁⟩ := insertMembers_total rank generation
      (t := { t with fileGroup := t.fileGroup ++ [explicitRow rank row] }) hrow (List.nodup_append.1 hnd).1
    obtain ⟨heq, -, -⟩ := insertMembers_ok ht₁
    unfold insertGroups
    rw [ht₁]
    refine ih hrows ?_
    rw [heq, List.map_append, List.map_map]
    exact hnd

/-! ## Both modes -/

section Modes

variable {scanId : Int} {hasScan : Bool} {t : ScanTables}

/-- Writers that leave the same summaries lead to the same publication. -/
theorem publish_same {m m' : PublishMode}
    (h : ∀ generation, ∃ a b, insertResults generation m t.withoutResults = (.ok (), a) ∧
      insertResults generation m' t.withoutResults = (.ok (), b) ∧ a.fileGroup = b.fileGroup ∧
        a.stats = b.stats) :
    ((∃ g a b, publishResults scanId hasScan m t = (.ok g, a) ∧
        publishResults scanId hasScan m' t = (.ok g, b) ∧ a.fileGroup = b.fileGroup ∧ a.stats = b.stats) ∨
      ∃ e e', (publishResults scanId hasScan m t).1 = .error e ∧
        (publishResults scanId hasScan m' t).1 = .error e') := by
  unfold publishResults Tx.atomically publishBody
  cases nextPublication scanId t.membership with
  | error e => exact .inr ⟨e, e, rfl, rfl⟩
  | ok generation =>
    obtain ⟨a, b, ha, hb, hgroups, hstats⟩ := h generation
    simp only [ha, hb, recordScanReclaim, hgroups]
    cases persistedEstimates b.fileGroup with
    | error e => exact .inr ⟨e, e, rfl, rfl⟩
    | ok estimates =>
      simp only
      cases ReclaimEstimate.forFreshScan estimates with
      | error e => exact .inr ⟨e, e, rfl, rfl⟩
      | ok total =>
        simp only
        cases hasScan with
        | false => exact .inr ⟨_, _, rfl, rfl⟩
        | true =>
          refine .inl ⟨generation, _, _, rfl, rfl, rfl, ?_⟩
          simp only [markPrepared, hstats]

/-- A writer that always refuses makes its publication refuse. -/
theorem publish_refused {m : PublishMode}
    (h : ∀ generation, ∃ e a, insertResults generation m t.withoutResults = (.error e, a)) :
    ∃ e, (publishResults scanId hasScan m t).1 = .error e := by
  unfold publishResults Tx.atomically publishBody
  cases nextPublication scanId t.membership with
  | error e => exact ⟨e, rfl⟩
  | ok generation =>
    obtain ⟨e, a, ha⟩ := h generation
    simp only [ha]
    exact ⟨e, rfl⟩

end Modes

/-- `publish_results` of the groups that `duplicate_groups` returns. -/
def publishInMemory (scanId : Int) (hasScan : Bool) : Tx ScanTables AppError Int := fun t =>
  match duplicateGroups t.file with
  | .error e => (.error e, t)
  | .ok groups => publishResults scanId hasScan (.explicit groups) t

/-- Both builders refuse, or both write the same summaries and the same totals. -/
def BuildersAgree (scanId : Int) (hasScan : Bool) (t : ScanTables) : Prop :=
  (∃ g g' a b, publishInMemory scanId hasScan t = (.ok g, a) ∧
      publishResults scanId hasScan .derived t = (.ok g', b) ∧
      a.fileGroup = b.fileGroup ∧ a.stats = b.stats) ∨
    ∃ e e', (publishInMemory scanId hasScan t).1 = .error e ∧
      (publishResults scanId hasScan .derived t).1 = .error e'

/-- No digest of two allocations has a negative size or a row without a pathname. -/
def Publishable (files : List FileRow) : Prop :=
  (∀ x ∈ groupRows (groupObjects files), Value.less x.size (.integer 0) = false) ∧
    ∀ f ∈ groupedRows files, f.path ≠ .text []

section Agree

variable {files : List FileRow}

/-- Every group is measured exactly when the refusal lets the manifest pass and no size is negative. -/
theorem Walked.measured_iff (hw : Walked files) {groups : List DuplicateGroup}
    (h : duplicateGroups files = .ok groups) :
    (∃ rows, measureGroups groups = .ok rows) ↔ refuseUntrustworthyGroupObjects files = .ok () ∧
      ∀ x ∈ groupRows (groupObjects files), Value.less x.size (.integer 0) = false := by
  obtain ⟨-, hholds⟩ := hw.duplicateGroups_holds h
  have hall : (∃ rows, measureGroups groups = .ok rows) ↔ ∀ g ∈ groups, ∃ r, g.physicalReclaim = .ok r := by
    constructor
    · rintro ⟨rows, hrows⟩
      clear hholds h
      induction groups generalizing rows with
      | nil => exact fun _ h => absurd h List.not_mem_nil
      | cons g gs ih =>
        unfold measureGroups at hrows
        split at hrows
        · cases hrows
        rename_i r hr
        split at hrows
        · cases hrows
        rename_i rows' hrows'
        exact List.forall_mem_cons.2 ⟨⟨r, hr⟩, ih _ hrows'⟩
    · exact measureGroups_total
  rw [hall, refuseUntrustworthyGroupObjects_ok, groupRows_eq, List.forall_mem_map]
  constructor
  · intro hmeasured
    have hboth : ∀ d ∈ digestGroups files, Value.less (figuresOf d.2).size (.integer 0) = false ∧
        ∀ o ∈ objectsOf d.2, untrustworthy (ObjectRow.of o) (figuresOf d.2) = false := by
      intro d hd
      obtain ⟨g, hg, -, n, hn⟩ := exists_of_forall₂_left hholds d hd
      obtain ⟨hpos, htrust⟩ := hn.measured.1 (hmeasured g hg)
      rw [hn.figures_size, less_zero_integer]
      exact ⟨hpos, htrust⟩
    exact ⟨fun d hd => (hboth d hd).2, fun d hd => (hboth d hd).1⟩
  · rintro ⟨htrust, hsizes⟩ g hg
    obtain ⟨d, hd, -, n, hn⟩ := exists_of_forall₂_right hholds g hg
    have hpos := hsizes d hd
    rw [hn.figures_size, less_zero_integer] at hpos
    exact hn.measured.2 ⟨hpos, htrust d hd⟩

theorem forall₂_comp {α β γ : Type} {R : α → β → Prop} {S : β → γ → Prop} {as : List α} {bs : List β}
    (h : List.Forall₂ R as bs) : ∀ {cs : List γ}, List.Forall₂ S bs cs →
      List.Forall₂ (fun a c => ∃ b, R a b ∧ S b c) as cs := by
  induction h with
  | nil => intro cs h'; cases h'; exact .nil
  | cons hab _ ih =>
    intro cs h'
    cases h' with
    | cons hbc hrest => exact .cons ⟨_, hab, hbc⟩ (ih hrest)

theorem forall₂_flatMap_eq {α β γ : Type} {f : α → List γ} {g : β → List γ} {as : List α}
    {bs : List β} (h : List.Forall₂ (fun a b => f a = g b) as bs) : as.flatMap f = bs.flatMap g := by
  induction h with
  | nil => rfl
  | cons hab _ ih => rw [List.flatMap_cons, List.flatMap_cons, hab, ih]

/-- The measured groups: their figures, and the pathnames they hold. -/
theorem Walked.rows (hw : Walked files) {groups : List DuplicateGroup}
    (h : duplicateGroups files = .ok groups) {rows : List (DuplicateGroup × GroupReclaim)}
    (hrows : measureGroups groups = .ok rows) :
    List.Forall₂ SameFigures rows (groupRows (groupObjects files)) ∧
      (rows.flatMap fun row => row.1.files.map fun e => Value.text (lossyUtf8 e.path)) =
        (groupedRows files).map FileRow.path := by
  obtain ⟨hread, hholds⟩ := hw.duplicateGroups_holds h
  have htwo : ∀ g ∈ groups, ∀ r, g.physicalReclaim = .ok r → 2 ≤ r.objectCount := by
    intro g hg r hr
    obtain ⟨d, -, -, n, hn⟩ := exists_of_forall₂_right hholds g hg
    rw [(hn.figures hr).2.1, figuresOf_objectCount]
    exact hn.objects
  have hmeasured := measureGroups_forall₂ htwo hrows
  -- each measured group with the digest it holds
  have hpairs : List.Forall₂ (fun d row => d ∈ digestGroups files ∧
      row.1.hash = Sql.lowerHex (figuresOf d.2).digest ∧ row.1.physicalReclaim = .ok row.2 ∧
        ∃ n, HoldsDigest d.2 (rowsOf files d.1) row.1 n) (digestGroups files) rows := by
    refine List.Forall₂.imp ?_ ((List.forall₂_and_left (p := (· ∈ digestGroups files)) _ _).2
      ⟨fun _ h => h, forall₂_comp hholds hmeasured⟩)
    rintro d row ⟨hd, g, ⟨hhash, hn⟩, rfl, hr⟩
    exact ⟨hd, hhash, hr, hn⟩
  constructor
  · rw [groupRows_eq, List.forall₂_map_right_iff]
    refine (List.Forall₂.imp ?_ hpairs).flip
    rintro d row ⟨hd, hhash, hr, n, hn⟩
    obtain ⟨h₁, h₂, h₃, h₄, h₅, h₆, h₇, h₈⟩ := hn.figures hr
    exact ⟨hhash, h₁, h₂, h₃, h₄, h₅, h₆, h₇, h₈⟩
  · rw [groupedRows_segments, List.map_flatMap]
    refine (forall₂_flatMap_eq (List.Forall₂.imp ?_ hpairs)).symm
    rintro d row ⟨hd, -, -, n, hn⟩
    rw [hn.files, List.map_map]
    refine List.map_congr_left fun f hf => ?_
    obtain ⟨b, hb, hutf⟩ := (hn.readable f (hn.perm.mem_iff.1 hf)).path
    simp only [Function.comp_apply, entryOf, hb, textOf, lossyUtf8_of_isUtf8 _ hutf]

theorem nodup_groupedRows (hkeyed : files.Pairwise fun a b => Value.same a.path b.path = false)
    (hw : Walked files) : ((groupedRows files).map FileRow.path).Nodup := by
  rw [groupedRows_eq, ((Sql.orderBy_perm _ _).map _).nodup_iff]
  refine List.pairwise_map.2 ((hkeyed.filter _).imp_of_mem fun {a b} ha _ hne heq => ?_)
  obtain ⟨p, hp, -⟩ := hw.paths a (List.mem_filter.1 ha).1
  rw [← heq, hp, Bool.eq_false_iff] at hne
  exact hne (Value.same_text.2 rfl)

theorem insertExplicit_ok {generation : Int} {groups : List DuplicateGroup} {t t' : ScanTables}
    (h : insertExplicit generation groups t = (.ok (), t')) : ∃ rows, measureGroups groups = .ok rows ∧
      insertGroups generation 0 (Sql.orderBy explicitOrder rows) t = (.ok (), t') := by
  unfold insertExplicit at h
  split at h
  · cases h
  · rename_i rows hrows; exact ⟨rows, hrows, h⟩

/-- The explicit writer over a manifest that both builders measure. -/
theorem Walked.inserts (hw : Walked files)
    (hkeyed : files.Pairwise fun a b => Value.same a.path b.path = false) {groups : List DuplicateGroup}
    (h : duplicateGroups files = .ok groups) {rows : List (DuplicateGroup × GroupReclaim)}
    (hrows : measureGroups groups = .ok rows) (generation : Int) {t : ScanTables} (ht : t.member = []) :
    (∃ t', insertExplicit generation groups t = (.ok (), t')) ↔ ∀ f ∈ groupedRows files, f.path ≠ .text [] := by
  obtain ⟨-, hpaths⟩ := hw.rows h hrows
  have hsorted := (Sql.orderBy_perm explicitOrder rows).flatMap_right fun row =>
    row.1.files.map fun e => Value.text (lossyUtf8 e.path)
  have hnamed : (∀ row ∈ Sql.orderBy explicitOrder rows, ∀ e ∈ row.1.files, lossyUtf8 e.path ≠ []) ↔
      ∀ f ∈ groupedRows files, f.path ≠ .text [] := by
    have hleft : (∀ row ∈ Sql.orderBy explicitOrder rows, ∀ e ∈ row.1.files, lossyUtf8 e.path ≠ []) ↔
        ∀ v ∈ (groupedRows files).map FileRow.path, v ≠ .text [] := by
      rw [← hpaths]
      simp only [List.forall_mem_flatMap, List.forall_mem_map, Sql.mem_orderBy, ne_eq, Value.text.injEq]
    rw [hleft, List.forall_mem_map]
  constructor
  · rintro ⟨t', hinsert⟩
    obtain ⟨rows', hrows', hinsert⟩ := insertExplicit_ok hinsert
    rw [hrows] at hrows'
    cases hrows'
    exact hnamed.1 (insertGroups_ok hinsert).2.1
  · intro hall
    unfold insertExplicit
    rw [hrows]
    refine insertGroups_total (hnamed.2 hall) ?_
    rw [ht, List.map_nil, List.nil_append, hsorted.nodup_iff, hpaths]
    exact nodup_groupedRows hkeyed hw

end Agree

section Outcome

variable {scanId : Int} {hasScan : Bool} {t : ScanTables}

theorem insertDerived_total (hrefuse : refuseUntrustworthyGroupObjects t.file = .ok ()) :
    insertDerived t = (.ok (), { t with fileGroup := t.fileGroup ++
      (Sql.orderBy GroupFigures.order (groupRows (groupObjects t.file))).mapIdx GroupFigures.row }) := by
  unfold insertDerived
  rw [hrefuse]

/-- Where the refusal stands, the derived publication is refused. -/
theorem derived_refused (hrefuse : refuseUntrustworthyGroupObjects t.file ≠ .ok ()) :
    ∃ e, (publishResults scanId hasScan .derived t).1 = .error e := by
  refine publish_refused fun generation => ?_
  match hr : insertDerived t.withoutResults with
  | (.ok (), t') => exact absurd (insertDerived_ok hr).1 hrefuse
  | (.error e, t') => exact ⟨e, t', hr⟩

theorem explicit_refused {groups : List DuplicateGroup}
    (h : ∀ generation t', insertExplicit generation groups t.withoutResults ≠ (.ok (), t')) :
    ∃ e, (publishResults scanId hasScan (.explicit groups) t).1 = .error e := by
  refine publish_refused fun generation => ?_
  match hr : insertExplicit generation groups t.withoutResults with
  | (.ok (), t') => exact absurd hr (h generation t')
  | (.error e, t') => exact ⟨e, t', hr⟩

/-- Over a manifest that both builders measure, the two writers leave the same summaries. -/
theorem Walked.both_write (hw : Walked t.file) (hkeyed : t.Keyed) {groups : List DuplicateGroup}
    (hgroups : duplicateGroups t.file = .ok groups)
    (hrefuse : refuseUntrustworthyGroupObjects t.file = .ok ()) (hp : Publishable t.file)
    (generation : Int) : ∃ a b,
      insertResults generation (.explicit groups) t.withoutResults = (.ok (), a) ∧
      insertResults generation .derived t.withoutResults = (.ok (), b) ∧ a.fileGroup = b.fileGroup ∧
        a.stats = b.stats := by
  obtain ⟨rows, hrows⟩ := (hw.measured_iff hgroups).2 ⟨hrefuse, hp.1⟩
  have hsame := ranked_rows (hw.rows hgroups hrows).1
  obtain ⟨a, ha⟩ := (hw.inserts hkeyed.paths hgroups hrows generation (t := t.withoutResults) rfl).2 hp.2
  obtain ⟨rows', hrows', hinsert⟩ := insertExplicit_ok ha
  rw [hrows] at hrows'
  cases hrows'
  obtain ⟨heq, -, -⟩ := insertGroups_ok hinsert
  refine ⟨a, _, ha, insertDerived_total (t := t.withoutResults) hrefuse, ?_, ?_⟩
  · rw [heq, hsame]
    rfl
  · rw [heq]

end Outcome

/-- **Both builders publish the same summaries and totals or both refuse, exactly when a manifest that
is accepted has no negative size and no empty pathname in its groups.** -/
theorem builders_agree (scanId : Int) (hasScan : Bool) (t : ScanTables) (hkeyed : t.Keyed)
    (hw : Walked t.file) :
    BuildersAgree scanId hasScan t ↔ (Accepted hasScan t → Publishable t.file) := by
  rw [← derived_isOk scanId]
  constructor
  · rintro (⟨g, g', a, b, hmemory, -, -⟩ | ⟨e, e', -, hd⟩) hok
    · unfold publishInMemory at hmemory
      split at hmemory
      · cases hmemory
      rename_i groups hgroups
      obtain ⟨-, t₁, stats, hinsert, -⟩ := publishResults_ok hmemory
      obtain ⟨rows, hrows, -⟩ := insertExplicit_ok hinsert
      exact ⟨((hw.measured_iff hgroups).1 ⟨rows, hrows⟩).2,
        (hw.inserts hkeyed.paths hgroups hrows g rfl).1 ⟨t₁, hinsert⟩⟩
    · rw [hd] at hok; cases hok
  intro hpublishable
  unfold BuildersAgree publishInMemory
  cases hgroups : duplicateGroups t.file with
  | error e =>
    -- what cannot be read into memory is refused by the other builder as well
    obtain ⟨e', he'⟩ : ∃ e, (publishResults scanId hasScan .derived t).1 = .error e :=
      derived_refused fun hrefuse => by
        unfold duplicateGroups at hgroups
        rw [readEntries_iff.2 ⟨hw.readable hrefuse, rfl⟩] at hgroups
        cases hgroups
    exact .inr ⟨e, e', rfl, he'⟩
  | ok groups =>
    have hmeasure := hw.measured_iff hgroups
    by_cases hrefuse : refuseUntrustworthyGroupObjects t.file = .ok ()
    · by_cases hp : Publishable t.file
      · rcases publish_same (hw.both_write hkeyed hgroups hrefuse hp) with
          ⟨g, a, b, ha, hb, h₁, h₂⟩ | ⟨e, e', ha, hb⟩
        · exact .inl ⟨g, g, a, b, ha, hb, h₁, h₂⟩
        · exact .inr ⟨e, e', ha, hb⟩
      · obtain ⟨e', he'⟩ : ∃ e, (publishResults scanId hasScan .derived t).1 = .error e := by
          cases hr : (publishResults scanId hasScan .derived t).1 with
          | ok g => exact absurd (hpublishable (by rw [hr]; rfl)) hp
          | error e => exact ⟨e, rfl⟩
        have hno : ∀ generation t', insertExplicit generation groups t.withoutResults ≠ (.ok (), t') := by
          intro generation t' hinsert
          obtain ⟨rows, hrows, -⟩ := insertExplicit_ok hinsert
          exact hp ⟨(hmeasure.1 ⟨rows, hrows⟩).2,
            (hw.inserts hkeyed.paths hgroups hrows generation rfl).1 ⟨t', hinsert⟩⟩
        obtain ⟨e, he⟩ := explicit_refused hno
        exact .inr ⟨e, e', he, he'⟩
    · have hno : ∀ generation t', insertExplicit generation groups t.withoutResults ≠ (.ok (), t') := by
        intro generation t' hinsert
        obtain ⟨rows, hrows, -⟩ := insertExplicit_ok hinsert
        exact hrefuse (hmeasure.1 ⟨rows, hrows⟩).1
      obtain ⟨e, he⟩ := explicit_refused hno
      obtain ⟨e', he'⟩ := derived_refused hrefuse
      exact .inr ⟨e, e', he, he'⟩

theorem sizedFiles_walked {size : Int} (h : -2 ^ 63 ≤ size ∧ size < 2 ^ 63) :
    Walked (sizedTables size).file := by
  have hrow : ∀ f ∈ (sizedTables size).file, ∃ letter ∈ [(97 : Fin 256), 98],
      f.path = .text [47, letter] ∧ f.size = .integer size ∧ f.device = 1 ∧ f.inode = letter.val ∧
        f.hash = .blob (List.replicate 32 7) := by
    intro f hf
    obtain ⟨letter, hl, rfl⟩ := List.mem_map.1 hf
    exact ⟨letter, hl, rfl, rfl, rfl, rfl, rfl⟩
  refine ⟨fun f hf => ?_, fun f hf => ?_, fun f hf => ?_, fun f hf f' hf' _ _ => ?_⟩
  · obtain ⟨letter, hl, hpath, -⟩ := hrow f hf
    refine ⟨_, hpath, ?_⟩
    rcases List.mem_cons.1 hl with rfl | hl
    · decide
    · rw [List.mem_singleton.1 hl]; decide
  · obtain ⟨letter, -, -, -, -, -, hhash⟩ := hrow f hf
    exact .inr ⟨_, hhash⟩
  · obtain ⟨letter, -, -, hsize, hdevice, hinode, -⟩ := hrow f hf
    have := letter.isLt
    refine ⟨by rw [hdevice]; omega, by rw [hinode]; omega, fun n hn => ?_⟩
    rw [hsize] at hn
    cases hn
    exact h
  · obtain ⟨-, -, -, hsize, -⟩ := hrow f hf
    obtain ⟨-, -, -, hsize', -⟩ := hrow f' hf'
    rw [hsize, hsize']

theorem builders_agree_sample : BuildersAgree 1 true (sizedTables 10) :=
  (builders_agree 1 true (sizedTables 10) (sizedTables_keyed 10) (sizedFiles_walked (by decide))).2
    fun _ => ⟨by decide +kernel, by decide +kernel⟩

/-- A negative size without link counts is published by one builder and refused by the other. -/
theorem not_builders_agree :
    ¬∀ t : ScanTables, t.Keyed → Walked t.file → BuildersAgree 1 true t := by
  intro h
  have hmemory : (publishInMemory 1 true (sizedTables (-1))).1.isOk = false := by decide +kernel
  have hderived : (publishResults 1 true .derived (sizedTables (-1))).1.isOk = true := by decide +kernel
  rcases h (sizedTables (-1)) (sizedTables_keyed (-1)) (sizedFiles_walked (by decide)) with
    ⟨g, g', a, b, ha, -⟩ | ⟨e, e', -, hd⟩
  · rw [ha] at hmemory; cases hmemory
  · rw [hd] at hderived; cases hderived

end DedupCommando
