import DedupCommando.Store.DuplicateGroups

/-!
# The manifest by digest

Both builders of results go over the same relation: the rows of each digest, grouped by object, where
there are two objects at least.

* `objectsOf`, `digestGroups` — the relation.
* `groupRows_eq`, `groupedRows_eq` — the two statements are read off it.
* `figuresOf`, `refuseUntrustworthyGroupObjects_ok` — the figures of a digest, and what is refused.
-/

set_option autoImplicit false

namespace DedupCommando

open Sql (Value)

/-- The rows of one digest by object. -/
def objectsOf (files : List FileRow) : List (List FileRow) :=
  (Grouping.groupByKey FileRow.objectKey files).map Prod.snd

/-- The rows that have a digest. -/
def hashed (files : List FileRow) : List FileRow := files.filter fun f => decide (f.hash ≠ .null)

theorem mem_hashed {files : List FileRow} {f : FileRow} : f ∈ hashed files ↔ f ∈ files ∧ f.hash ≠ .null := by
  simp [hashed]

/-- A digest by the place it has in the order of cells. -/
def FileRow.digestKey (f : FileRow) : ℕ ×ₗ ℚ ×ₗ Bytes := f.hash.key

/-- The digests of two objects, ascending, with their rows. -/
def digestGroups (files : List FileRow) : List ((ℕ ×ₗ ℚ ×ₗ Bytes) × List FileRow) :=
  (Grouping.groupByKey FileRow.digestKey (hashed files)).filter fun g =>
    decide (2 ≤ (objectsOf g.2).length)

theorem mem_digestGroups {files : List FileRow} {g : (ℕ ×ₗ ℚ ×ₗ Bytes) × List FileRow}
    (h : g ∈ digestGroups files) :
    g.2 ≠ [] ∧ g.2 = Grouping.under FileRow.digestKey g.1 (hashed files) ∧
      2 ≤ (objectsOf g.2).length := by
  obtain ⟨hg, htwo⟩ := List.mem_filter.1 h
  exact ⟨Grouping.group_ne_nil hg, (Grouping.mem_groupByKey.1 hg).2, by simpa using htwo⟩

theorem nodup_digestGroups (files : List FileRow) : ((digestGroups files).map Prod.fst).Nodup := by
  have hsub : ((digestGroups files).map Prod.fst).Sublist
      ((Grouping.groupByKey FileRow.digestKey (hashed files)).map Prod.fst) :=
    List.filter_sublist.map _
  rw [Grouping.map_fst_groupByKey] at hsub
  exact hsub.nodup (Grouping.nodup_keysOf _ _)

/-! ## The object relation by digest -/

/-- An object's digest is the one its rows are grouped under. -/
theorem groupObjects_digest {files : List FileRow} {g} (h : g ∈ Grouping.groupByKey
    (fun f : FileRow => toLex (f.digestKey, f.objectKey)) (hashed files)) :
    (ObjectRow.of g.2).digest.key = (ofLex g.1).1 := by
  obtain ⟨f, fs, hfs⟩ := List.exists_cons_of_ne_nil (Grouping.group_ne_nil h)
  obtain ⟨-, heq⟩ := Grouping.mem_groupByKey.1 h
  have hf : f ∈ g.2 := by rw [hfs]; exact List.mem_cons_self
  rw [heq] at hf
  have hkey := of_decide_eq_true (List.mem_filter.1 hf).2
  have hdigest : (ObjectRow.of g.2).digest = f.hash := by
    unfold ObjectRow.of
    rw [hfs]; rfl
  rw [hdigest, ← hkey]; rfl

theorem groupObjects_eq (files : List FileRow) : groupObjects files =
    (Grouping.groupByKey (fun f : FileRow => toLex (f.digestKey, f.objectKey)) (hashed files)).map
      fun g => ObjectRow.of g.2 := rfl

/-- The objects of one digest are its rows by object. -/
theorem groupObjects_under (files : List FileRow) (k : ℕ ×ₗ ℚ ×ₗ Bytes) :
    Grouping.under (fun o : ObjectRow => o.digest.key) k (groupObjects files) =
      (objectsOf (Grouping.under FileRow.digestKey k (hashed files))).map ObjectRow.of := by
  rw [groupObjects_eq, objectsOf, ← Grouping.groupByKey_pair FileRow.digestKey FileRow.objectKey,
    Grouping.under, List.filter_map, List.map_map]
  refine congrArg (List.map _) (List.filter_congr fun g hg => ?_)
  simp only [Function.comp_apply]
  rw [groupObjects_digest hg]

theorem keysOf_groupObjects (files : List FileRow) :
    Grouping.keysOf (fun o : ObjectRow => o.digest.key) (groupObjects files) =
      Grouping.keysOf FileRow.digestKey (hashed files) := by
  refine (Grouping.eq_keysOf (Grouping.keysOf_sorted _ _) fun k => ?_).symm
  rw [Grouping.mem_keysOf, groupObjects_eq]
  constructor
  · rintro ⟨f, hf, rfl⟩
    obtain ⟨g, hg, hkey, -⟩ := Grouping.exists_group
      (fun f : FileRow => toLex (f.digestKey, f.objectKey)) hf
    exact ⟨_, List.mem_map_of_mem hg, by rw [groupObjects_digest hg, hkey]; rfl⟩
  · rintro ⟨o, ho, rfl⟩
    obtain ⟨g, hg, rfl⟩ := List.mem_map.1 ho
    obtain ⟨⟨f, hf, hk⟩, -⟩ := Grouping.mem_groupByKey.1 hg
    exact ⟨f, hf, by rw [groupObjects_digest hg, ← hk]; rfl⟩

theorem groupByKey_groupObjects (files : List FileRow) :
    ((Grouping.groupByKey (fun o : ObjectRow => o.digest.key) (groupObjects files)).filter fun g =>
      decide (2 ≤ g.2.length)) =
      (digestGroups files).map fun g => (g.1, (objectsOf g.2).map ObjectRow.of) := by
  rw [digestGroups, Grouping.groupByKey_eq, Grouping.groupByKey_eq, keysOf_groupObjects,
    List.filter_map, List.filter_map, List.map_map]
  have hlen : ∀ k, (Grouping.under (fun o : ObjectRow => o.digest.key) k (groupObjects files)).length =
      (objectsOf (Grouping.under FileRow.digestKey k (hashed files))).length := fun k => by
    rw [groupObjects_under, List.length_map]
  refine (congrArg _ (List.filter_congr fun k _ => ?_)).trans (List.map_congr_left fun k _ => ?_)
  · simp only [Function.comp_apply, hlen]
  · simp only [Function.comp_apply, groupObjects_under]

/-- The figures of the rows of one digest. -/
def figuresOf (fs : List FileRow) : GroupFigures := GroupFigures.of ((objectsOf fs).map ObjectRow.of)

/-- **The summaries are the figures of the digests of two objects.** -/
theorem groupRows_eq (files : List FileRow) :
    groupRows (groupObjects files) =
      (digestGroups files).map fun g => figuresOf g.2 := by
  unfold groupRows
  rw [groupByKey_groupObjects, List.map_map]
  rfl

/-- The groups in memory are made of the same digests. -/
theorem groupedRows_eq (files : List FileRow) :
    groupedRows files = Sql.orderBy (fun f : FileRow => toLex (f.hash.key, f.path.key))
      (files.filter fun f => decide (f.hash ≠ .null ∧ f.hash.key ∈ (digestGroups files).map Prod.fst)) := by
  unfold groupedRows
  simp only
  rw [groupByKey_groupObjects, List.map_map]
  rfl

/-! ## The figures of a digest -/

theorem objectsOf_ne_nil {fs o : List FileRow} (h : o ∈ objectsOf fs) : o ≠ [] := by
  obtain ⟨p, hp, rfl⟩ := List.mem_map.1 h
  exact Grouping.group_ne_nil hp

theorem mem_of_objectsOf {fs o : List FileRow} (h : o ∈ objectsOf fs) : ∀ f ∈ o, f ∈ fs := by
  obtain ⟨p, hp, rfl⟩ := List.mem_map.1 h
  obtain ⟨-, heq⟩ := Grouping.mem_groupByKey.1 hp
  intro f hf
  rw [heq] at hf
  exact (List.mem_filter.1 hf).1

theorem exists_objectsOf {fs : List FileRow} {f : FileRow} (h : f ∈ fs) :
    ∃ o ∈ objectsOf fs, f ∈ o := by
  obtain ⟨g, hg, -, hf⟩ := Grouping.exists_group FileRow.objectKey h
  exact ⟨g.2, List.mem_map_of_mem hg, hf⟩

theorem sum_objectsOf (fs : List FileRow) : ((objectsOf fs).map List.length).sum = fs.length := by
  rw [objectsOf, List.map_map]
  exact Grouping.sum_length_groupByKey _ _

theorem figuresOf_fileCount (fs : List FileRow) : (figuresOf fs).fileCount = fs.length := by
  unfold figuresOf GroupFigures.of
  rw [List.map_map]
  exact sum_objectsOf fs

theorem figuresOf_objectCount (fs : List FileRow) :
    (figuresOf fs).objectCount = (objectsOf fs).length := by
  simp [figuresOf, GroupFigures.of]

/-- The rows of a digest carry it. -/
theorem mem_digestGroups_row {files : List FileRow} {g : (ℕ ×ₗ ℚ ×ₗ Bytes) × List FileRow}
    (hg : g ∈ digestGroups files) {f : FileRow} (hf : f ∈ g.2) :
    f ∈ files ∧ f.hash ≠ .null ∧ f.hash.key = g.1 := by
  obtain ⟨-, heq, -⟩ := mem_digestGroups hg
  rw [heq, Grouping.mem_under, mem_hashed] at hf
  exact ⟨hf.1.1, hf.1.2, hf.2⟩

/-- An object's digest is one of its rows'. -/
theorem objectRow_digest {o : List FileRow} (hne : o ≠ []) : ∃ f ∈ o, (ObjectRow.of o).digest = f.hash := by
  obtain ⟨f, fs, rfl⟩ := List.exists_cons_of_ne_nil hne
  exact ⟨f, List.mem_cons_self, rfl⟩

/-- The digest of the figures is one of the rows'. -/
theorem figuresOf_digest {fs : List FileRow} (hne : fs ≠ []) :
    ∃ f ∈ fs, (figuresOf fs).digest = f.hash := by
  obtain ⟨f, hf⟩ := List.exists_mem_of_ne_nil _ hne
  obtain ⟨o, ho, -⟩ := exists_objectsOf hf
  obtain ⟨o, os, hos⟩ := List.exists_cons_of_ne_nil (List.ne_nil_of_mem ho)
  have homem : o ∈ objectsOf fs := by rw [hos]; exact List.mem_cons_self
  obtain ⟨f, hf, hdigest⟩ := objectRow_digest (objectsOf_ne_nil homem)
  refine ⟨f, mem_of_objectsOf homem f hf, ?_⟩
  rw [← hdigest]
  unfold figuresOf GroupFigures.of
  rw [hos]; rfl

/-- **What the refusal goes over: the objects of every digest of two, with its figures.** -/
theorem mem_groupedObjects {files : List FileRow} {p : ObjectRow × GroupFigures} :
    p ∈ groupedObjects files ↔ ∃ g ∈ digestGroups files, ∃ o ∈ objectsOf g.2,
      p = (ObjectRow.of o, figuresOf g.2) := by
  have hkey : ∀ g ∈ digestGroups files, (figuresOf g.2).digest ≠ .null ∧
      (figuresOf g.2).digest.key = g.1 := by
    intro g hg
    obtain ⟨f, hf, hdigest⟩ := figuresOf_digest (mem_digestGroups hg).1
    obtain ⟨-, hne, hk⟩ := mem_digestGroups_row hg hf
    rw [hdigest]
    exact ⟨hne, hk⟩
  have hobject : ∀ g ∈ digestGroups files, ∀ o ∈ objectsOf g.2, (ObjectRow.of o).digest.key = g.1 := by
    intro g hg o ho
    obtain ⟨f, hf, hdigest⟩ := objectRow_digest (objectsOf_ne_nil ho)
    rw [hdigest]
    exact (mem_digestGroups_row hg (mem_of_objectsOf ho f hf)).2.2
  unfold groupedObjects
  rw [groupRows_eq]
  simp only [List.mem_flatMap, List.mem_map, List.mem_filter]
  constructor
  · rintro ⟨o, ho, _, ⟨⟨g, hg, rfl⟩, hsame⟩, rfl⟩
    have hk : o.digest.key = g.1 := ((Value.same_iff.1 hsame).2.symm).trans (hkey g hg).2
    have hunder : o ∈ Grouping.under (fun o : ObjectRow => o.digest.key) g.1 (groupObjects files) :=
      Grouping.mem_under.2 ⟨ho, hk⟩
    rw [groupObjects_under, ← (mem_digestGroups hg).2.1] at hunder
    obtain ⟨o', ho', rfl⟩ := List.mem_map.1 hunder
    exact ⟨g, hg, o', ho', rfl⟩
  · rintro ⟨g, hg, o, ho, rfl⟩
    refine ⟨ObjectRow.of o, ?_, _, ⟨⟨g, hg, rfl⟩, ?_⟩, rfl⟩
    · have hunder : ObjectRow.of o ∈ Grouping.under (fun o : ObjectRow => o.digest.key) g.1
          (groupObjects files) := by
        rw [groupObjects_under, ← (mem_digestGroups hg).2.1]
        exact List.mem_map_of_mem ho
      exact (Grouping.mem_under.1 hunder).1
    · exact Value.same_iff.2 ⟨(hkey g hg).1, (hkey g hg).2.trans (hobject g hg o ho).symm⟩

/-- The refusal lets a manifest pass when it can measure every object of every group. -/
theorem refuseUntrustworthyGroupObjects_ok {files : List FileRow} :
    refuseUntrustworthyGroupObjects files = .ok () ↔ ∀ g ∈ digestGroups files,
      ∀ o ∈ objectsOf g.2, untrustworthy (ObjectRow.of o) (figuresOf g.2) = false := by
  have hnone : refuseUntrustworthyGroupObjects files = .ok () ↔
      ((groupedObjects files).filter fun p => untrustworthy p.1 p.2) = [] := by
    unfold refuseUntrustworthyGroupObjects
    split
    · rename_i o g h
      simp only [reduceCtorEq, false_iff]
      intro hnil
      rw [hnil] at h; cases h
    · rename_i h
      simp only [true_iff]
      rw [List.head?_eq_none_iff] at h
      have := (Sql.orderBy_perm (fun p : ObjectRow × GroupFigures => p.1.named.key)
        ((groupedObjects files).filter fun p => untrustworthy p.1 p.2)).symm
      rwa [h, List.perm_nil] at this
  rw [hnone, List.filter_eq_nil_iff]
  constructor
  · intro h g hg o ho
    simpa using h _ (mem_groupedObjects.2 ⟨g, hg, o, ho, rfl⟩)
  · intro h p hp
    obtain ⟨g, hg, o, ho, rfl⟩ := mem_groupedObjects.1 hp
    simpa using h g hg o ho

theorem figuresOf_ceiling (fs : List FileRow) :
    (figuresOf fs).ceiling = (figuresOf fs).size.times ((objectsOf fs).length - 1) := by
  simp [figuresOf, GroupFigures.of]

theorem figuresOf_state (fs : List FileRow) :
    (figuresOf fs).state = 0 ∨ (figuresOf fs).state = 1 ∨ (figuresOf fs).state = 2 := by
  unfold figuresOf GroupFigures.of groupState
  simp only
  split
  · exact .inl rfl
  · split
    · exact .inr (.inr rfl)
    · exact .inr (.inl rfl)

end DedupCommando
