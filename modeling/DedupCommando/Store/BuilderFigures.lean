import DedupCommando.Store.PublicationExact

/-!
# One digest, measured by either builder

* `links_trusted` — what the refusal asks of the link counts of an object.
* `entryOf`, `readEntry_iff` — a manifest row in memory.
* `evidence_weights` — the objects of a group in memory are the objects of the digest.
* `weighObjects_ok` — the loop over them, in closed form.
* `digest_measured` — both builders measure a digest or refuse it, unless its size is negative.
-/

set_option autoImplicit false

namespace DedupCommando

open Sql (Value)

/-! ## One object -/

/-- Where the least and the greatest are one, all are. -/
theorem eq_of_min_eq_max {β : Type} [LinearOrder β] {l : List β} {a b : β} (hmin : l.min? = some a)
    (hmax : l.max? = some b) : a = b ↔ ∀ x ∈ l, x = a := by
  obtain ⟨ha, hle⟩ := List.min?_eq_some_iff.1 hmin
  obtain ⟨hb, hge⟩ := List.max?_eq_some_iff.1 hmax
  constructor
  · rintro rfl x hx
    exact le_antisymm (hge x hx) (hle x hx)
  · intro h
    exact (h b hb).symm

theorem exists_min_max {β : Type} [LinearOrder β] {l : List β} (h : l ≠ []) :
    ∃ a b, l.min? = some a ∧ l.max? = some b := by
  obtain ⟨x, xs, rfl⟩ := List.exists_cons_of_ne_nil h
  exact ⟨_, _, rfl, rfl⟩

/-- Every pathname of an object reports the same recorded count. -/
def Uniform (o : List FileRow) (m : Nat) : Prop := ∀ f ∈ o, f.nlink = .integer m

theorem less_zero_integer {n : Int} : Value.less (.integer n) (.integer 0) = false ↔ 0 ≤ n := by
  have hlt : (Value.integer n).key < (Value.integer 0).key ↔ n < 0 := by
    simp [Value.key, Prod.Lex.lt_iff]
  simp [Value.less, hlt]

theorem Uniform.nlink {o : List FileRow} {m : Nat} (h : Uniform o m) (hne : o ≠ []) :
    (ObjectRow.of o).nlink = .integer m :=
  Sql.minimum_const (by simp) (by simpa using hne) fun u hu => by
    obtain ⟨f, hf, rfl⟩ := List.mem_map.1 hu
    exact h f hf

/-- **What the refusal asks of the link counts of an object.** -/
theorem links_trusted {o : List FileRow} (hne : o ≠ []) :
    ((ObjectRow.of o).nlinkMinClass = (ObjectRow.of o).nlinkMaxClass ∧
      ¬1 < (ObjectRow.of o).nlinkDistinct ∧ (ObjectRow.of o).nlink.typeof = "integer" ∧
      Value.less (ObjectRow.of o).nlink (.integer 0) = false) ↔ ∃ m, Uniform o m := by
  obtain ⟨least, greatest, hleast, hgreatest⟩ :=
    exists_min_max (l := o.map fun f => f.nlink.typeof) (by simpa using hne)
  have hclass : (ObjectRow.of o).nlinkMinClass = (ObjectRow.of o).nlinkMaxClass ↔
      ∀ f ∈ o, f.nlink.typeof = least := by
    have hiff : (ObjectRow.of o).nlinkMinClass = (ObjectRow.of o).nlinkMaxClass ↔ least = greatest := by
      unfold ObjectRow.of
      simp only
      rw [hleast, hgreatest, Option.getD_some, Option.getD_some]
    rw [hiff, eq_of_min_eq_max hleast hgreatest]
    simp
  rw [hclass]
  constructor
  · rintro ⟨hone, hdistinct, htype, hless⟩
    obtain ⟨n, hn⟩ := typeof_integer.1 htype
    have hmem : Value.integer n ∈ o.map FileRow.nlink := by
      have hmin : Sql.minimum (o.map FileRow.nlink) = .integer n := hn
      rw [← hmin]
      exact Sql.minimum_mem (by rw [hmin]; simp)
    obtain ⟨g, hg, hgn⟩ := List.mem_map.1 hmem
    rw [hn, less_zero_integer] at hless
    refine ⟨n.toNat, fun f hf => ?_⟩
    obtain ⟨k, hk⟩ := typeof_integer.1 ((hone f hf).trans ((hone g hg).symm.trans (by rw [hgn]; rfl)))
    have hkey := Sql.countDistinct_le_one.1 hdistinct f.nlink (List.mem_map_of_mem hf) g.nlink
      (List.mem_map_of_mem hg) (by simp [hk]) (by simp [hgn])
    rw [hk, hgn] at hkey
    have hkn : k = n := Value.same_integer.1 (Value.same_iff.2 ⟨by simp, hkey⟩)
    rw [hk, hkn, Int.toNat_of_nonneg hless]
  · rintro ⟨m, hm⟩
    rw [hm.nlink hne]
    refine ⟨fun f hf => ?_, Sql.countDistinct_le_one.2 fun u hu v hv _ _ => ?_, rfl,
      less_zero_integer.2 (Int.natCast_nonneg m)⟩
    · obtain ⟨g, hg⟩ := List.exists_mem_of_ne_nil _ hne
      have hmem := (List.min?_eq_some_iff.1 hleast).1
      obtain ⟨g, hg, hgl⟩ := List.mem_map.1 hmem
      rw [← hgl, hm f hf, hm g hg]
    · obtain ⟨f, hf, rfl⟩ := List.mem_map.1 hu
      obtain ⟨g, hg, rfl⟩ := List.mem_map.1 hv
      rw [hm f hf, hm g hg]

/-! ## Rows in memory -/

def intOf (v : Value) : Int :=
  match v with
  | .integer n => n
  | _ => 0

def textOf (v : Value) : Bytes :=
  match v with
  | .text b => b
  | _ => []

/-- What a row reads as, where it reads. -/
def entryOf (f : FileRow) : FileEntry where
  path := textOf f.path
  size := castU64 (intOf f.size)
  mtime := f.mtime
  mtimeNsec := f.mtimeNsec
  ctimeSec := f.ctimeSec
  ctimeNsec := f.ctimeNsec
  device := castU64 f.device
  inode := castU64 f.inode
  nlink := (intOf f.nlink).toNat

/-- The cells of a row are of the classes that a group in memory is read from. -/
structure Readable (f : FileRow) : Prop where
  path : ∃ b, f.path = .text b ∧ isUtf8 b = true
  size : ∃ n, f.size = .integer n
  hash : ∃ d, f.hash = .blob d
  nlink : ∃ m : Nat, f.nlink = .integer m

theorem linkCountFromSql_ok {v : Value} {links : LinkCount} :
    linkCountFromSql v = .ok links ↔ ∃ m : Nat, v = .integer m ∧ links = LinkCount.fromU64 m := by
  cases v with
  | integer n =>
    unfold linkCountFromSql LinkCount.fromI64 LinkCount.fromU64
    simp only [Value.integer.injEq]
    constructor
    · intro h
      split at h
      · rename_i hn; cases h; exact ⟨0, by omega, rfl⟩
      · rename_i hn
        split at h
        · rename_i hpos
          cases h
          refine ⟨n.toNat, by omega, ?_⟩
          rw [if_neg (by omega)]
        · cases h
    · rintro ⟨m, rfl, rfl⟩
      by_cases hm : m = 0
      · subst hm; rfl
      · rw [if_neg (by omega), if_pos (by omega), if_neg hm, Int.toNat_natCast]
  | _ => simp [linkCountFromSql]

theorem toU64_fromU64 (m : Nat) : (LinkCount.fromU64 m).toU64 = m := by
  unfold LinkCount.fromU64
  split
  · rename_i h; rw [h]; rfl
  · rfl

theorem readEntry_iff {f : FileRow} {x : Bytes × FileEntry} :
    readEntry f = .ok x ↔ Readable f ∧ x = (Sql.lowerHex f.hash, entryOf f) := by
  constructor
  · intro h
    obtain ⟨hash, e⟩ := x
    obtain ⟨hpath, hutf, ⟨d, hd, hhash⟩, ⟨n, hn, hsize⟩, ⟨links, hlinks, hnlink⟩, h₁, h₂, h₃, h₄, h₅,
      h₆⟩ := readEntry_ok h
    obtain ⟨m, hm, rfl⟩ := linkCountFromSql_ok.1 hlinks
    rw [toU64_fromU64] at hnlink
    refine ⟨⟨⟨_, hpath, hutf⟩, ⟨n, hn⟩, ⟨d, hd⟩, ⟨m, hm⟩⟩, ?_⟩
    obtain ⟨path, size, mtime, mtimeNsec, ctimeSec, ctimeNsec, device, inode, nlink⟩ := e
    simp only at hpath hsize hnlink h₁ h₂ h₃ h₄ h₅ h₆
    simp only [entryOf, hpath, hn, hm, hd, hhash, hsize, hnlink, h₁, h₂, h₃, h₄, h₅, h₆, textOf, intOf,
      Sql.lowerHex, Int.toNat_natCast]
  · rintro ⟨⟨⟨b, hpath, hutf⟩, ⟨n, hn⟩, ⟨d, hd⟩, ⟨m, hm⟩⟩, rfl⟩
    unfold readEntry entryOf
    rw [hpath, hn, hd, hm, getText_ok.2 ⟨rfl, hutf⟩, getInteger_ok.2 rfl,
      linkCountFromSql_ok.2 ⟨m, rfl, rfl⟩]
    simp only [textOf, intOf, Sql.lowerHex, toU64_fromU64, Int.toNat_natCast]

theorem readEntries_iff {rows : List FileRow} : ∀ {entries : List (Bytes × FileEntry)},
    readEntries rows = .ok entries ↔ (∀ f ∈ rows, Readable f) ∧
      entries = rows.map fun f => (Sql.lowerHex f.hash, entryOf f) := by
  induction rows with
  | nil => simp [readEntries, eq_comm]
  | cons f rows ih =>
    intro entries
    unfold readEntries
    constructor
    · intro h
      split at h
      · cases h
      rename_i x hx
      split at h
      · cases h
      rename_i xs hxs
      cases h
      obtain ⟨hf, rfl⟩ := readEntry_iff.1 hx
      obtain ⟨hrows, rfl⟩ := ih.1 hxs
      exact ⟨List.forall_mem_cons.2 ⟨hf, hrows⟩, rfl⟩
    · rintro ⟨hall, rfl⟩
      obtain ⟨hf, hrows⟩ := List.forall_mem_cons.1 hall
      rw [readEntry_iff.2 ⟨hf, rfl⟩, ih.2 ⟨hrows, rfl⟩]
      rfl

/-! ## Objects in memory -/

/-- The device, the inode and the size of a row are words of 64 bits. -/
structure Words (f : FileRow) : Prop where
  device : -2 ^ 63 ≤ f.device ∧ f.device < 2 ^ 63
  inode : -2 ^ 63 ≤ f.inode ∧ f.inode < 2 ^ 63
  size : ∀ n, f.size = .integer n → -2 ^ 63 ≤ n ∧ n < 2 ^ 63

theorem castU64_inj {m n : Int} (hm : -2 ^ 63 ≤ m ∧ m < 2 ^ 63) (hn : -2 ^ 63 ≤ n ∧ n < 2 ^ 63) :
    castU64 m = castU64 n ↔ m = n := by
  unfold castU64
  omega

theorem entryOf_objectKey {f f' : FileRow} (hf : Readable f) (hf' : Readable f') (hw : Words f)
    (hw' : Words f') : (entryOf f).objectKey = (entryOf f').objectKey ↔ f.objectKey = f'.objectKey := by
  obtain ⟨n, hn⟩ := hf.size
  obtain ⟨n', hn'⟩ := hf'.size
  have hsize : castU64 n = castU64 n' ↔ (Value.integer n).key = (Value.integer n').key := by
    rw [castU64_inj (hw.size n hn) (hw'.size n' hn')]
    constructor
    · rintro rfl; rfl
    · intro h; exact Value.same_integer.1 (Value.same_iff.2 ⟨by simp, h⟩)
  simp only [FileEntry.objectKey, FileRow.objectKey, EmbeddingLike.apply_eq_iff_eq, Prod.mk.injEq,
    entryOf, hn, hn', intOf, hsize, castU64_inj hw.device hw'.device, castU64_inj hw.inode hw'.inode]

/-- What one object's pathnames say of its links. -/
def objectWeight (o : List FileEntry) : Nat × LinkCount × LinkCount :=
  (o.length, LinkCount.fromU64 (((o.map FileEntry.nlink).min?).getD 0),
    LinkCount.fromU64 (((o.map FileEntry.nlink).max?).getD 0))

def ObjectEvidence.weight (e : ObjectEvidence) : Nat × LinkCount × LinkCount := (e.observed, e.low, e.high)

theorem min?_perm {l l' : List Nat} (h : l.Perm l') : l.min? = l'.min? ∧ l.max? = l'.max? := by
  by_cases hl : l = []
  · subst hl
    rw [List.nil_perm.1 h]
    exact ⟨rfl, rfl⟩
  · obtain ⟨a, b, ha, hb⟩ := exists_min_max hl
    obtain ⟨a', b', ha', hb'⟩ := exists_min_max (fun hn => hl (List.perm_nil.1 (hn ▸ h)) : l' ≠ [])
    rw [ha, hb, ha', hb']
    obtain ⟨hma, hla⟩ := List.min?_eq_some_iff.1 ha
    obtain ⟨hma', hla'⟩ := List.min?_eq_some_iff.1 ha'
    obtain ⟨hmb, hlb⟩ := List.max?_eq_some_iff.1 hb
    obtain ⟨hmb', hlb'⟩ := List.max?_eq_some_iff.1 hb'
    exact ⟨congrArg some (le_antisymm (hla _ (h.mem_iff.2 hma')) (hla' _ (h.mem_iff.1 hma))),
      congrArg some (le_antisymm (hlb' _ (h.mem_iff.1 hmb)) (hlb _ (h.mem_iff.2 hmb')))⟩

theorem objectWeight_perm (o o' : List FileEntry) (h : o.Perm o') : objectWeight o = objectWeight o' := by
  obtain ⟨hmin, hmax⟩ := min?_perm (h.map FileEntry.nlink)
  rw [objectWeight, objectWeight, h.length_eq, hmin, hmax]

/-- **The objects of a group in memory are the objects of its manifest rows.** -/
theorem evidence_weights {fs rows : List FileRow} {g : DuplicateGroup} (hperm : rows.Perm fs)
    (hg : g.files = rows.map entryOf) (hread : ∀ f ∈ fs, Readable f) (hwords : ∀ f ∈ fs, Words f) :
    (g.evidence.map ObjectEvidence.weight).Perm
      ((objectsOf fs).map fun o => objectWeight (o.map entryOf)) := by
  have hsorted := List.perm_insertionSort
    (fun a b : ObjectEvidence => pathOrder a.representative ≤ pathOrder b.representative)
    ((Grouping.groupByKey FileEntry.objectKey g.files).map fun o => ObjectEvidence.of o.2)
  refine (hsorted.map _).trans ?_
  have hweights : ((Grouping.groupByKey FileEntry.objectKey g.files).map fun o =>
      ObjectEvidence.of o.2).map ObjectEvidence.weight =
      (Grouping.groupByKey FileEntry.objectKey (fs.map entryOf)).map fun o => objectWeight o.2 := by
    rw [List.map_map, hg, ← Grouping.groupByKey_perm objectWeight_perm (hperm.map entryOf)]
    rfl
  rw [hweights, Grouping.groupByKey_map, List.map_map, objectsOf, List.map_map]
  have hrekey := Grouping.groupByKey_rekey (f := FileEntry.objectKey ∘ entryOf) (g := FileRow.objectKey)
    (l := fs) fun a ha b hb =>
      entryOf_objectKey (hread a ha) (hread b hb) (hwords a ha) (hwords b hb)
  have := hrekey.map fun o => objectWeight (o.map entryOf)
  rwa [List.map_map, List.map_map] at this

/-! ## The loop over the objects, in closed form -/

theorem agreedLinks_iff {evidence : List ObjectEvidence} : ∀ {links : List ObjectLinks},
    agreedLinks evidence = .ok links ↔ (∀ e ∈ evidence, e.low = e.high) ∧
      links = evidence.map fun e => ⟨e.observed, e.low⟩ := by
  induction evidence with
  | nil => simp [agreedLinks, eq_comm]
  | cons e es ih =>
    intro links
    unfold agreedLinks LinkCount.agreed
    constructor
    · intro h
      split at h
      · cases h
      rename_i count hcount
      split at hcount
      · rename_i hagree
        cases hcount
        split at h
        · cases h
        rename_i rest hrest
        cases h
        obtain ⟨hes, rfl⟩ := ih.1 hrest
        exact ⟨List.forall_mem_cons.2 ⟨hagree, hes⟩, rfl⟩
      · cases hcount
    · rintro ⟨hall, rfl⟩
      obtain ⟨he, hes⟩ := List.forall_mem_cons.1 hall
      rw [if_pos he, ih.2 ⟨hes, rfl⟩]
      rfl

/-- More pathnames than the inode has links. -/
def ObjectLinks.short (x : ObjectLinks) : Bool :=
  match x.links with
  | .unknown => false
  | .known links => decide (links < x.observed)

/-- More links than pathnames. -/
def ObjectLinks.gap (x : ObjectLinks) : Bool :=
  match x.links with
  | .unknown => false
  | .known links => decide (x.observed < links)

def ObjectLinks.unrecorded (x : ObjectLinks) : Bool := decide (x.links = .unknown)

theorem weighObjects_ok {named : String} {objects : List ObjectLinks} :
    ∀ {unknown incomplete : Bool} {p : Bool × Bool},
      ReclaimEstimate.weighObjects named unknown incomplete objects = .ok p ↔
        (∀ x ∈ objects, x.short = false) ∧
          p = (unknown || objects.any ObjectLinks.unrecorded, incomplete || objects.any ObjectLinks.gap) := by
  induction objects with
  | nil =>
    intro unknown incomplete p
    simp only [ReclaimEstimate.weighObjects, Except.ok.injEq, List.any_nil, Bool.or_false]
    exact ⟨fun h => ⟨fun _ hx => absurd hx List.not_mem_nil, h.symm⟩, fun h => h.2.symm⟩
  | cons x xs ih =>
    intro unknown incomplete p
    unfold ReclaimEstimate.weighObjects
    split
    · rename_i hx
      rw [ih]
      simp [ObjectLinks.short, ObjectLinks.unrecorded, ObjectLinks.gap, hx]
    · rename_i links hx
      split
      · rename_i hlt
        simp [ObjectLinks.short, hx, hlt]
      · rename_i hle
        rw [ih]
        simp [ObjectLinks.short, ObjectLinks.unrecorded, ObjectLinks.gap, hx, hle, Bool.or_assoc]

/-- The figure of a group whose objects have these links. -/
def estimateOf (ceiling : Nat) (objects : List ObjectLinks) : ReclaimEstimate :=
  if objects.any ObjectLinks.unrecorded then ReclaimEstimate.unknown
  else if objects.any ObjectLinks.gap then ReclaimEstimate.upperBound ceiling
  else ReclaimEstimate.exact ceiling

theorem forObjects_iff {size : Nat} {objects : List ObjectLinks} {named : String} {e : ReclaimEstimate}
    (hne : objects ≠ []) :
    ReclaimEstimate.forObjects size objects named = .ok e ↔
      size * (objects.length - 1) ≤ i64Max ∧ (∀ x ∈ objects, x.short = false) ∧
        e = estimateOf (size * (objects.length - 1)) objects := by
  have hlen : objects.length ≠ 0 := by simpa using hne
  unfold ReclaimEstimate.forObjects ReclaimEstimate.objectCeiling
  rw [if_neg hlen]
  by_cases hfit : size * (objects.length - 1) ≤ i64Max
  · rw [if_pos hfit]
    simp only [hfit, true_and]
    constructor
    · intro h
      split at h
      · cases h
      rename_i unknown incomplete hweigh
      cases h
      obtain ⟨hshort, hp⟩ := weighObjects_ok.1 hweigh
      simp only [Bool.false_or, Prod.mk.injEq] at hp
      obtain ⟨rfl, rfl⟩ := hp
      exact ⟨hshort, rfl⟩
    · rintro ⟨hshort, rfl⟩
      rw [weighObjects_ok.2 ⟨hshort, rfl⟩]
      rfl
  · rw [if_neg hfit]
    simp only [hfit, false_and, reduceCtorEq]

/-- **The figure of a group in memory, in closed form.** -/
theorem physicalReclaim_iff {g : DuplicateGroup} {r : GroupReclaim} (hne : g.evidence ≠ [])
    (links : List ObjectLinks) (hlinks : links = g.evidence.map fun e => ⟨e.observed, e.low⟩) :
    g.physicalReclaim = .ok r ↔ (∀ e ∈ g.evidence, e.low = e.high) ∧
      g.sizeBytes * (links.length - 1) ≤ i64Max ∧ (∀ x ∈ links, x.short = false) ∧
      r = ⟨(links.map ObjectLinks.observed).sum, links.length, sumLinks 0 links,
        estimateOf (g.sizeBytes * (links.length - 1)) links⟩ := by
  have hlne : links ≠ [] := by rw [hlinks]; simpa using hne
  unfold DuplicateGroup.physicalReclaim GroupReclaim.ofObjects
  simp only
  constructor
  · intro h
    split at h
    · cases h
    rename_i ls hls
    obtain ⟨hagree, rfl⟩ := agreedLinks_iff.1 hls
    rw [← hlinks] at h
    split at h
    · cases h
    rename_i e he
    cases h
    obtain ⟨hfit, hshort, rfl⟩ := (forObjects_iff hlne).1 he
    exact ⟨hagree, hfit, hshort, rfl⟩
  · rintro ⟨hagree, hfit, hshort, rfl⟩
    rw [agreedLinks_iff.2 ⟨hagree, hlinks⟩]
    simp only
    rw [(forObjects_iff hlne).2 ⟨hfit, hshort, rfl⟩]

/-! ## One digest by either builder -/

theorem less_integer {a b : Int} : Value.less (.integer a) (.integer b) = decide (a < b) := by
  have hlt : (Value.integer a).key < (Value.integer b).key ↔ a < b := by
    simp [Value.key, Prod.Lex.lt_iff]
  simp [Value.less, hlt]

/-- An object's links as its pathnames report them in memory. -/
def linksOf (o : List FileRow) : ObjectLinks :=
  ⟨(objectWeight (o.map entryOf)).1, (objectWeight (o.map entryOf)).2.1⟩

theorem fromU64_inj {m n : Nat} : LinkCount.fromU64 m = LinkCount.fromU64 n ↔ m = n := by
  constructor
  · intro h
    have := congrArg LinkCount.toU64 h
    rwa [toU64_fromU64, toU64_fromU64] at this
  · rintro rfl; rfl

theorem nlinks_ne_nil {o : List FileRow} (hne : o ≠ []) :
    (o.map entryOf).map FileEntry.nlink ≠ [] := by
  simpa using hne

/-- The two extremes agree where every pathname reports one count. -/
theorem weight_agrees {o : List FileRow} (hne : o ≠ []) (hread : ∀ f ∈ o, Readable f) :
    (objectWeight (o.map entryOf)).2.1 = (objectWeight (o.map entryOf)).2.2 ↔ ∃ m, Uniform o m := by
  obtain ⟨a, b, ha, hb⟩ := exists_min_max (nlinks_ne_nil hne)
  unfold objectWeight
  simp only
  rw [ha, hb, Option.getD_some, Option.getD_some, fromU64_inj, eq_of_min_eq_max ha hb]
  constructor
  · intro h
    refine ⟨a, fun f hf => ?_⟩
    obtain ⟨m, hm⟩ := (hread f hf).nlink
    have hentry := h (entryOf f).nlink (List.mem_map_of_mem (List.mem_map_of_mem hf))
    have hm' : (entryOf f).nlink = m := by simp [entryOf, hm, intOf]
    rw [hm, ← hentry, hm']
  · rintro ⟨m, hm⟩ x hx
    have hall : ∀ y ∈ (o.map entryOf).map FileEntry.nlink, y = m := by
      intro y hy
      obtain ⟨e, he, rfl⟩ := List.mem_map.1 hy
      obtain ⟨f, hf, rfl⟩ := List.mem_map.1 he
      simp [entryOf, hm f hf, intOf]
    rw [hall x hx, hall a (List.min?_eq_some_iff.1 ha).1]

theorem Uniform.linksOf {o : List FileRow} {m : Nat} (h : Uniform o m) (hne : o ≠ []) :
    linksOf o = ⟨o.length, LinkCount.fromU64 m⟩ := by
  obtain ⟨a, b, ha, -⟩ := exists_min_max (nlinks_ne_nil hne)
  have ham : a = m := by
    obtain ⟨e, he, rfl⟩ := List.mem_map.1 (List.min?_eq_some_iff.1 ha).1
    obtain ⟨f, hf, rfl⟩ := List.mem_map.1 he
    simp [entryOf, h f hf, intOf]
  unfold DedupCommando.linksOf objectWeight
  simp only
  rw [ha, Option.getD_some, ham, List.length_map]

/-- What a uniform object is by either reading. -/
theorem Uniform.states {o : List FileRow} {m : Nat} (h : Uniform o m) (hne : o ≠ []) :
    ((DedupCommando.linksOf o).short = (Value.less (.integer 0) (ObjectRow.of o).nlink &&
      Value.less (ObjectRow.of o).nlink (.integer (ObjectRow.of o).observed))) ∧
    (DedupCommando.linksOf o).unrecorded = !Value.less (.integer 0) (ObjectRow.of o).nlink ∧
    (DedupCommando.linksOf o).gap =
      Value.less (.integer (ObjectRow.of o).observed) (ObjectRow.of o).nlink := by
  have hpos : 0 < o.length := List.length_pos_iff.2 hne
  have hobserved : (ObjectRow.of o).observed = o.length := rfl
  rw [h.linksOf hne, h.nlink hne, hobserved]
  simp only [less_integer, ObjectLinks.short, ObjectLinks.unrecorded, ObjectLinks.gap,
    LinkCount.fromU64]
  by_cases hm : m = 0
  · subst hm
    simp
  · simp [hm]
    omega

/-- What the refusal asks of one object, where the size is a number. -/
theorem untrustworthy_eq_false {o : List FileRow} (hne : o ≠ []) {x : GroupFigures} {n : Int}
    (hsize : x.size = .integer n) : untrustworthy (ObjectRow.of o) x = false ↔
      (∃ m, Uniform o m) ∧ (DedupCommando.linksOf o).short = false ∧ x.ceiling.typeof = "integer" := by
  have hsplit : untrustworthy (ObjectRow.of o) x = false ↔
      ((ObjectRow.of o).nlinkMinClass = (ObjectRow.of o).nlinkMaxClass ∧
        ¬1 < (ObjectRow.of o).nlinkDistinct ∧ (ObjectRow.of o).nlink.typeof = "integer" ∧
        Value.less (ObjectRow.of o).nlink (.integer 0) = false) ∧
      (Value.less (.integer 0) (ObjectRow.of o).nlink &&
        Value.less (ObjectRow.of o).nlink (.integer (ObjectRow.of o).observed)) = false ∧
      x.ceiling.typeof = "integer" := by
    have htype : (Value.integer n).typeof = "integer" := rfl
    simp only [untrustworthy, Bool.or_eq_false_iff, decide_eq_false_iff_not, not_not, hsize, htype,
      and_assoc, ne_eq, true_and]
  rw [hsplit, links_trusted hne]
  constructor
  · rintro ⟨⟨m, hm⟩, hshort, hceiling⟩
    exact ⟨⟨m, hm⟩, by rw [(hm.states hne).1]; exact hshort, hceiling⟩
  · rintro ⟨⟨m, hm⟩, hshort, hceiling⟩
    exact ⟨⟨m, hm⟩, by rw [← (hm.states hne).1]; exact hshort, hceiling⟩

section Digest

variable {fs rows : List FileRow} {g : DuplicateGroup} {n : Int}

/-- A group in memory that holds the rows of one digest of two objects and one size. -/
structure HoldsDigest (fs rows : List FileRow) (g : DuplicateGroup) (n : Int) : Prop where
  perm : rows.Perm fs
  files : g.files = rows.map entryOf
  size : g.sizeBytes = castU64 n
  readable : ∀ f ∈ fs, Readable f
  words : ∀ f ∈ fs, Words f
  sizes : ∀ f ∈ fs, f.size = .integer n
  objects : 2 ≤ (objectsOf fs).length

theorem HoldsDigest.range (h : HoldsDigest fs rows g n) : -2 ^ 63 ≤ n ∧ n < 2 ^ 63 := by
  have htwo := h.objects
  obtain ⟨o, ho⟩ := List.exists_mem_of_length_pos (by omega : 0 < (objectsOf fs).length)
  obtain ⟨f, hf⟩ := List.exists_mem_of_ne_nil _ (objectsOf_ne_nil ho)
  have hf := mem_of_objectsOf ho f hf
  exact (h.words f hf).size n (h.sizes f hf)

/-- The links that the figure of the group is made from. -/
def DuplicateGroup.links (g : DuplicateGroup) : List ObjectLinks :=
  g.evidence.map fun e => ⟨e.observed, e.low⟩

theorem HoldsDigest.links (h : HoldsDigest fs rows g n) :
    g.links.Perm ((objectsOf fs).map linksOf) := by
  have := (evidence_weights h.perm h.files h.readable h.words).map
    fun w : Nat × LinkCount × LinkCount => (⟨w.1, w.2.1⟩ : ObjectLinks)
  rw [List.map_map, List.map_map] at this
  exact this

theorem HoldsDigest.agree (h : HoldsDigest fs rows g n) :
    (∀ e ∈ g.evidence, e.low = e.high) ↔ ∀ o ∈ objectsOf fs, ∃ m, Uniform o m := by
  have hweights := evidence_weights h.perm h.files h.readable h.words
  have hmem : (∀ e ∈ g.evidence, e.low = e.high) ↔
      ∀ w ∈ g.evidence.map ObjectEvidence.weight, w.2.1 = w.2.2 := by
    rw [List.forall_mem_map]
    rfl
  rw [hmem]
  have hobjects : (∀ w ∈ g.evidence.map ObjectEvidence.weight, w.2.1 = w.2.2) ↔
      ∀ o ∈ objectsOf fs, (objectWeight (o.map entryOf)).2.1 = (objectWeight (o.map entryOf)).2.2 := by
    rw [← List.forall_mem_map (f := fun o : List FileRow => objectWeight (o.map entryOf))
      (P := fun w => w.2.1 = w.2.2)]
    exact ⟨fun hall w hw => hall w (hweights.mem_iff.2 hw), fun hall w hw => hall w (hweights.mem_iff.1 hw)⟩
  rw [hobjects]
  refine forall₂_congr fun o ho => ?_
  exact weight_agrees (objectsOf_ne_nil ho) fun f hf => h.readable f (mem_of_objectsOf ho f hf)

theorem HoldsDigest.figures_size (h : HoldsDigest fs rows g n) : (figuresOf fs).size = .integer n := by
  have htwo := h.objects
  refine Sql.minimum_const (by simp) ?_ fun u hu => ?_
  · intro hnil
    rw [List.map_eq_nil_iff, List.map_eq_nil_iff] at hnil
    rw [hnil] at htwo; exact absurd htwo (by decide)
  · obtain ⟨r, hr, rfl⟩ := List.mem_map.1 hu
    obtain ⟨o, ho, rfl⟩ := List.mem_map.1 hr
    obtain ⟨f, rest, rfl⟩ := List.exists_cons_of_ne_nil (objectsOf_ne_nil ho)
    exact h.sizes f (mem_of_objectsOf ho f List.mem_cons_self)

/-- Both ceilings are in the column's domain together, unless the size is negative. -/
theorem HoldsDigest.ceiling (h : HoldsDigest fs rows g n) :
    g.sizeBytes * ((objectsOf fs).length - 1) ≤ i64Max ↔
      0 ≤ n ∧ (figuresOf fs).ceiling.typeof = "integer" := by
  have htwo := h.objects
  obtain ⟨hlow, hhigh⟩ := h.range
  rw [figuresOf_ceiling, h.figures_size, h.size, Value.times]
  obtain ⟨k, hk⟩ : ∃ k, (objectsOf fs).length = k + 2 := ⟨_, (Nat.sub_add_cancel htwo).symm⟩
  have hcast : ((objectsOf fs).length : Int) - 1 = (k + 1 : Nat) := by omega
  rw [hcast, hk, show k + 2 - 1 = k + 1 from rfl]
  by_cases hn : 0 ≤ n
  · obtain ⟨s, rfl⟩ := Int.eq_ofNat_of_zero_le hn
    have hsize : castU64 s = s := by unfold castU64; omega
    rw [hsize]
    have hprod : (s : Int) * ((k + 1 : Nat) : Int) = ((s * (k + 1) : Nat) : Int) := by push_cast; rfl
    rw [hprod]
    by_cases hfit : s * (k + 1) ≤ i64Max
    · have : -2 ^ 63 ≤ ((s * (k + 1) : Nat) : Int) ∧ ((s * (k + 1) : Nat) : Int) < 2 ^ 63 := by
        unfold i64Max at hfit; omega
      rw [if_pos this]
      exact iff_of_true hfit ⟨hn, rfl⟩
    · have : ¬(-2 ^ 63 ≤ ((s * (k + 1) : Nat) : Int) ∧ ((s * (k + 1) : Nat) : Int) < 2 ^ 63) := by
        unfold i64Max at hfit; omega
      rw [if_neg this]
      exact iff_of_false hfit fun hand => absurd hand.2 (by simp [Value.typeof])
  · refine iff_of_false (fun hfit => ?_) fun hand => hn hand.1
    have hsize : 2 ^ 63 ≤ castU64 n := by unfold castU64; omega
    have := Nat.le_trans (Nat.le_mul_of_pos_right _ (Nat.succ_pos k)) hfit
    unfold i64Max at this
    omega

/-- **Either builder measures a digest, or neither does, unless its size is negative.** -/
theorem HoldsDigest.measured (h : HoldsDigest fs rows g n) :
    (∃ r, g.physicalReclaim = .ok r) ↔
      0 ≤ n ∧ ∀ o ∈ objectsOf fs, untrustworthy (ObjectRow.of o) (figuresOf fs) = false := by
  have hlinks := h.links
  have htwo := h.objects
  have hlen : g.links.length = (objectsOf fs).length := by rw [hlinks.length_eq, List.length_map]
  have hne : g.evidence ≠ [] := by
    intro hnil
    rw [DuplicateGroup.links, hnil] at hlen
    rw [← hlen] at htwo; exact absurd htwo (by decide)
  obtain ⟨o₀, ho₀⟩ := List.exists_mem_of_length_pos (by omega : 0 < (objectsOf fs).length)
  have hshort : (∀ x ∈ g.links, x.short = false) ↔ ∀ o ∈ objectsOf fs, (linksOf o).short = false := by
    rw [← List.forall_mem_map (f := linksOf) (P := fun x => x.short = false)]
    exact ⟨fun hall x hx => hall x (hlinks.mem_iff.2 hx), fun hall x hx => hall x (hlinks.mem_iff.1 hx)⟩
  have hmeasured : (∃ r, g.physicalReclaim = .ok r) ↔ (∀ o ∈ objectsOf fs, ∃ m, Uniform o m) ∧
      (0 ≤ n ∧ (figuresOf fs).ceiling.typeof = "integer") ∧
      ∀ o ∈ objectsOf fs, (linksOf o).short = false := by
    rw [← h.agree, ← h.ceiling, ← hshort, ← hlen]
    constructor
    · rintro ⟨r, hr⟩
      obtain ⟨h₁, h₂, h₃, -⟩ := (physicalReclaim_iff hne _ rfl).1 hr
      exact ⟨h₁, h₂, h₃⟩
    · rintro ⟨h₁, h₂, h₃⟩
      exact ⟨_, (physicalReclaim_iff hne _ rfl).2 ⟨h₁, h₂, h₃, rfl⟩⟩
  rw [hmeasured]
  constructor
  · rintro ⟨huniform, ⟨hn, hceiling⟩, hshort⟩
    exact ⟨hn, fun o ho => (untrustworthy_eq_false (objectsOf_ne_nil ho) h.figures_size).2
      ⟨huniform o ho, hshort o ho, hceiling⟩⟩
  · rintro ⟨hn, hall⟩
    have hall := fun o ho => (untrustworthy_eq_false (objectsOf_ne_nil ho) h.figures_size).1 (hall o ho)
    exact ⟨fun o ho => (hall o ho).1, ⟨hn, (hall o₀ ho₀).2.2⟩, fun o ho => (hall o ho).2.1⟩

theorem any_perm {α : Type} {P : α → Bool} {l l' : List α} (h : l.Perm l') : l.any P = l'.any P := by
  rw [Bool.eq_iff_iff, List.any_eq_true, List.any_eq_true]
  exact exists_congr fun a => and_congr_left fun _ => h.mem_iff

theorem any_congr_mem {α : Type} {P Q : α → Bool} {l : List α} (h : ∀ a ∈ l, P a = Q a) :
    l.any P = l.any Q := by
  rw [Bool.eq_iff_iff, List.any_eq_true, List.any_eq_true]
  exact exists_congr fun a => and_congr_right fun ha => by rw [h a ha]

/-- The state that the aggregate computes is the state of the figure in memory. -/
theorem HoldsDigest.state (h : HoldsDigest fs rows g n)
    (huniform : ∀ o ∈ objectsOf fs, ∃ m, Uniform o m) (c : Nat) :
    (figuresOf fs).state = (estimateOf c g.links).state.asI64 := by
  have hunrecorded : ((objectsOf fs).map ObjectRow.of).any (fun o => !Value.less (.integer 0) o.nlink) =
      g.links.any ObjectLinks.unrecorded := by
    rw [any_perm h.links, List.any_map, List.any_map]
    refine any_congr_mem fun o ho => ?_
    obtain ⟨m, hm⟩ := huniform o ho
    exact (hm.states (objectsOf_ne_nil ho)).2.1.symm
  have hgap : ((objectsOf fs).map ObjectRow.of).any
      (fun o => Value.less (.integer o.observed) o.nlink) = g.links.any ObjectLinks.gap := by
    rw [any_perm h.links, List.any_map, List.any_map]
    refine any_congr_mem fun o ho => ?_
    obtain ⟨m, hm⟩ := huniform o ho
    exact (hm.states (objectsOf_ne_nil ho)).2.2.symm
  have hstate : (figuresOf fs).state = groupState ((objectsOf fs).map ObjectRow.of) := rfl
  rw [hstate, groupState, hunrecorded, hgap, estimateOf]
  cases g.links.any ObjectLinks.unrecorded
  · cases g.links.any ObjectLinks.gap <;> rfl
  · rfl

/-- **Where both measure a digest, the figures are the same.** -/
theorem HoldsDigest.figures (h : HoldsDigest fs rows g n) {r : GroupReclaim}
    (hr : g.physicalReclaim = .ok r) :
    r.observedPaths = (figuresOf fs).fileCount ∧ r.objectCount = (figuresOf fs).objectCount ∧
      r.estimate.state.asI64 = (figuresOf fs).state ∧ g.sizeBytes ≤ i64Max ∧
      r.estimate.persistedBytes ≤ i64Max ∧ (figuresOf fs).size = .integer g.sizeBytes ∧
      (figuresOf fs).reclaim = .integer r.estimate.persistedBytes ∧
      (figuresOf fs).guaranteed = .integer r.estimate.guaranteedBytes := by
  have hlinks := h.links
  have htwo := h.objects
  obtain ⟨hlow, hhigh⟩ := h.range
  have hlen : g.links.length = (objectsOf fs).length := by rw [hlinks.length_eq, List.length_map]
  have hne : g.evidence ≠ [] := by
    intro hnil
    rw [DuplicateGroup.links, hnil] at hlen
    rw [← hlen] at htwo; exact absurd htwo (by decide)
  obtain ⟨hagree, hfit, -, rfl⟩ := (physicalReclaim_iff hne g.links rfl).1 hr
  have huniform := h.agree.1 hagree
  rw [hlen] at hfit
  have hceil := h.ceiling.1 hfit
  obtain ⟨s, rfl⟩ := Int.eq_ofNat_of_zero_le hceil.1
  have hsize : g.sizeBytes = s := by rw [h.size]; unfold castU64; omega
  have hfitsize : s ≤ i64Max := by
    rw [hsize] at hfit
    exact Nat.le_trans (Nat.le_mul_of_pos_right _ (by omega)) hfit
  -- the ceiling of the aggregate, which is in the domain
  have hceiling : (figuresOf fs).ceiling = .integer ((s * ((objectsOf fs).length - 1) : Nat) : Int) := by
    obtain ⟨c, hc⟩ := typeof_integer.1 hceil.2
    have hc' := hc
    rw [figuresOf_ceiling, h.figures_size, Value.times] at hc
    split at hc
    · cases hc
      rw [hc']
      congr 1
      push_cast [Nat.cast_sub (by omega : 1 ≤ (objectsOf fs).length)]
      rfl
    · cases hc
  have hstate := h.state huniform (g.sizeBytes * (g.links.length - 1))
  have hobserved : (g.links.map ObjectLinks.observed).sum = fs.length := by
    rw [(hlinks.map ObjectLinks.observed).sum_eq, List.map_map, ← sum_objectsOf]
    refine congrArg List.sum (List.map_congr_left fun o _ => ?_)
    simp [linksOf, objectWeight]
  refine ⟨?_, ?_, hstate.symm, by rw [hsize]; exact hfitsize, ?_, by rw [h.figures_size, hsize], ?_, ?_⟩
  · rw [figuresOf_fileCount, ← hobserved]
  · rw [figuresOf_objectCount, ← hlen]
  all_goals
    simp only [GroupFigures.reclaim, GroupFigures.guaranteed, hceiling, hstate, hsize, hlen]
    rw [hsize] at hfit
    unfold estimateOf
    cases g.links.any ObjectLinks.unrecorded
    · cases g.links.any ObjectLinks.gap <;>
        simp [ReclaimEstimate.exact, ReclaimEstimate.upperBound, ReclaimEstimate.persistedBytes,
          ReclaimState.asI64, hfit]
    · simp [ReclaimEstimate.unknown, ReclaimEstimate.persistedBytes, ReclaimState.asI64]

end Digest

end DedupCommando
