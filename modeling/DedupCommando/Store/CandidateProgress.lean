import DedupCommando.Lib.GroupedCounts
import DedupCommando.Store.Candidates
import DedupCommando.Store.HashReuseSound
import DedupCommando.Store.HashSpread
import DedupCommando.Store.LeaseGrant

/-!
# Progress of the hashing phase

What a checkpoint persists is what it changes of the totals, so the counters of the phase never
leave them.

* `eligibleObjects_eq`, `candidateStats_ok` — the four totals as sums over the objects worth hashing.
* `statsOf_fill` — what an UPDATE that fills rows changes of them.
* `Ready`, `Pending` — what holds between two checkpoints, and in the middle of one.
* `checkpoint_progress` — **one checkpoint, in any state a session reaches**.
* `hash_phase_progress` — **the counters of the whole phase, wherever it stops**.
-/

set_option autoImplicit false

namespace DedupCommando

open Sql (Value)

/-! ## The totals -/

/-- Every size is as `stat` reports one, and a device and an inode are 64 bits. -/
def Stored (files : List FileRow) : Prop :=
  ∀ f ∈ files, (∃ n : Nat, n < 2 ^ 63 ∧ f.size = .integer n) ∧
    (-2 ^ 63 ≤ f.device ∧ f.device < 2 ^ 63) ∧ -2 ^ 63 ≤ f.inode ∧ f.inode < 2 ^ 63

/-- The rows of one object. -/
abbrev objectAt (files : List FileRow) (k : ObjectKey) : List FileRow :=
  Grouping.under FileRow.objectKey k files

theorem objectsOf_eq (files : List FileRow) :
    objectsOf files = (Grouping.keysOf FileRow.objectKey files).map (objectAt files) := by
  unfold objectsOf
  rw [Grouping.groupByKey_eq, List.map_map]
  rfl

theorem objectAt_ne_nil {files : List FileRow} {k : ObjectKey}
    (hk : k ∈ Grouping.keysOf FileRow.objectKey files) : objectAt files k ≠ [] := by
  obtain ⟨f, hf, rfl⟩ := Grouping.mem_keysOf.1 hk
  exact List.ne_nil_of_mem (Grouping.mem_under.2 ⟨hf, rfl⟩)

theorem objectSize_mem {o : List FileRow} (h : o ≠ []) : ∃ f ∈ o, objectSize o = f.size := by
  obtain ⟨f, rest, rfl⟩ := List.exists_cons_of_ne_nil h
  exact ⟨f, List.mem_cons_self, rfl⟩

/-- The keys of the objects worth hashing. -/
def eligibleKeys (files : List FileRow) : List ObjectKey :=
  (Grouping.keysOf FileRow.objectKey files).filter fun k =>
    eligible files (objectSize (objectAt files k))

theorem nodup_eligibleKeys (files : List FileRow) : (eligibleKeys files).Nodup :=
  (Grouping.nodup_keysOf FileRow.objectKey files).filter _

theorem eligible_congr {files : List FileRow} {v w : Value} (h : v.key = w.key) :
    eligible files v = eligible files w := by
  have hnull : v = .null ↔ w = .null := by
    rw [← Value.key_eq_null, h, Value.key_eq_null]
  unfold eligible Value.same
  simp only [h, ne_eq, hnull]

theorem eligibleSizes_pairwise (files : List FileRow) :
    (eligibleSizes files).Pairwise fun a b => Value.same a b = false := by
  have hkeys : (Grouping.groupByKey Value.key (objectSizes files)).Pairwise fun g g' =>
      g.1 ≠ g'.1 := by
    rw [← List.pairwise_map, Grouping.map_fst_groupByKey]
    exact Grouping.nodup_keysOf Value.key (objectSizes files)
  have hhead : ∀ g ∈ Grouping.groupByKey Value.key (objectSizes files),
      (g.2.headD .null).key = g.1 := by
    intro g hg
    obtain ⟨v, vs, hv⟩ := List.exists_cons_of_ne_nil (Grouping.group_ne_nil hg)
    have hmem : v ∈ g.2 := hv ▸ List.mem_cons_self
    rw [(Grouping.mem_groupByKey.1 hg).2] at hmem
    rw [hv]
    exact (Grouping.mem_under.1 hmem).2
  unfold eligibleSizes
  rw [List.pairwise_map]
  refine (hkeys.filter _).imp_of_mem fun {g g'} hg hg' hne => ?_
  rw [← Bool.not_eq_true]
  intro hsame
  have hkey := (Value.same_iff.1 hsame).2
  rw [hhead g (List.mem_filter.1 hg).1, hhead g' (List.mem_filter.1 hg').1] at hkey
  exact hne hkey

/-- The join keeps the objects of the eligible sizes, each once. -/
theorem eligibleObjects_eq (files : List FileRow) :
    eligibleObjects files = (eligibleKeys files).map (objectAt files) := by
  have hpick : ∀ v : Value, (eligibleSizes files).filter (fun e => Value.same e v) = [] ∧
        eligible files v = false ∨
      (∃ e, (eligibleSizes files).filter (fun e => Value.same e v) = [e]) ∧
        eligible files v = true := by
    intro v
    rcases h : (eligibleSizes files).filter fun e => Value.same e v with _ | ⟨e, rest⟩
    · refine .inl ⟨rfl, List.any_eq_false.2 fun e he hs => ?_⟩
      exact List.filter_eq_nil_iff.1 h e he ((Value.same_comm e v).trans hs)
    · have he : e ∈ (eligibleSizes files).filter fun e => Value.same e v :=
        h ▸ List.mem_cons_self
      have hone := (filter_key_unique (eligibleSizes_pairwise files) he).1
      rw [h] at hone
      refine .inr ⟨⟨e, hone⟩, List.any_eq_true.2 ⟨e, (List.mem_filter.1 he).1, ?_⟩⟩
      exact (Value.same_comm v e).trans (List.mem_filter.1 he).2
  unfold eligibleObjects eligibleKeys
  rw [objectsOf_eq]
  induction Grouping.keysOf FileRow.objectKey files with
  | nil => rfl
  | cons k ks ih =>
    rw [List.map_cons, List.flatMap_cons, ih, List.filter_cons]
    rcases hpick (objectSize (objectAt files k)) with ⟨hnone, hno⟩ | ⟨⟨e, hone⟩, hyes⟩
    · rw [hnone, hno]
      rfl
    · rw [hone, hyes]
      rfl

def sizeNat : Value → Nat
  | .integer n => n.toNat
  | _ => 0

/-- The four totals as sums of numbers. -/
def statsOf (files : List FileRow) : CandidateStats where
  totalFiles := ((eligibleKeys files).map fun k => (objectAt files k).length).sum
  totalBytes := ((eligibleKeys files).map fun k => sizeNat (objectSize (objectAt files k))).sum
  hashedFiles := ((eligibleKeys files).map fun k => hashedPaths (objectAt files k)).sum
  hashedBytes := ((eligibleKeys files).map fun k =>
    if 0 < hashedPaths (objectAt files k) then sizeNat (objectSize (objectAt files k)) else 0).sum

theorem statsOf_hashedFiles_le (files : List FileRow) :
    (statsOf files).hashedFiles ≤ (statsOf files).totalFiles :=
  List.sum_le_sum fun _ _ => List.countP_le_length

theorem statsOf_hashedBytes_le (files : List FileRow) :
    (statsOf files).hashedBytes ≤ (statsOf files).totalBytes :=
  List.sum_le_sum fun k _ => by
    split
    · exact le_rfl
    · exact Nat.zero_le _

theorem objectSize_eq {files : List FileRow} (hstored : Stored files) {k : ObjectKey}
    (hk : k ∈ eligibleKeys files) : objectSize (objectAt files k) =
      .integer (sizeNat (objectSize (objectAt files k)) : Nat) := by
  obtain ⟨f, hf, heq⟩ := objectSize_mem (objectAt_ne_nil (List.mem_filter.1 hk).1)
  obtain ⟨⟨n, -, hn⟩, -⟩ := hstored f (Grouping.mem_under.1 hf).1
  rw [heq, hn]
  rfl

theorem castU64_of_lt {n : Nat} (h : n < 2 ^ 63) : castU64 n = n := by
  unfold castU64
  omega

theorem sumInteger_keys {ks : List ObjectKey} {v : ObjectKey → Value} {n : ObjectKey → Nat}
    (h : ∀ k ∈ ks, v k = .integer (n k)) :
    Sql.sumInteger (ks.map v) = if (ks.map n).sum < 2 ^ 63 then .ok ((ks.map n).sum : Int)
      else .error "integer overflow" := by
  rw [← Sql.sumInteger_nonneg, List.map_map]
  exact congrArg Sql.sumInteger (List.map_congr_left h)

/-- **The totals are answered exactly when they fit**, and are the sums. -/
theorem candidateStats_ok {scanId : Int} {t : FileTable} {c : CandidateStats}
    (hstored : Stored (scanFiles scanId t)) : candidateStats scanId t = .ok c ↔
      (statsOf (scanFiles scanId t)).totalFiles < 2 ^ 63 ∧
        (statsOf (scanFiles scanId t)).totalBytes < 2 ^ 63 ∧ c = statsOf (scanFiles scanId t) := by
  generalize hfiles : scanFiles scanId t = files at hstored ⊢
  have hfilesLe := statsOf_hashedFiles_le files
  have hbytesLe := statsOf_hashedBytes_le files
  have htotalFiles : Sql.sumInteger ((eligibleObjects files).map fun o => .integer o.length) =
      if (statsOf files).totalFiles < 2 ^ 63 then .ok ((statsOf files).totalFiles : Int)
      else .error "integer overflow" := by
    rw [eligibleObjects_eq, List.map_map]
    exact sumInteger_keys fun _ _ => rfl
  have htotalBytes : Sql.sumInteger ((eligibleObjects files).map objectSize) =
      if (statsOf files).totalBytes < 2 ^ 63 then .ok ((statsOf files).totalBytes : Int)
      else .error "integer overflow" := by
    rw [eligibleObjects_eq, List.map_map]
    exact sumInteger_keys fun k hk => objectSize_eq hstored hk
  have hhashedFiles : Sql.sumInteger
      ((eligibleObjects files).map fun o => .integer (hashedPaths o)) =
      if (statsOf files).hashedFiles < 2 ^ 63 then .ok ((statsOf files).hashedFiles : Int)
      else .error "integer overflow" := by
    rw [eligibleObjects_eq, List.map_map]
    exact sumInteger_keys fun _ _ => rfl
  have hhashedBytes : Sql.sumInteger ((eligibleObjects files).map fun o =>
      if 0 < hashedPaths o then objectSize o else .integer 0) =
      if (statsOf files).hashedBytes < 2 ^ 63 then .ok ((statsOf files).hashedBytes : Int)
      else .error "integer overflow" := by
    rw [eligibleObjects_eq, List.map_map]
    refine sumInteger_keys fun k hk => ?_
    simp only [Function.comp_apply]
    split
    · exact objectSize_eq hstored hk
    · rfl
  unfold candidateStats
  simp only
  rw [hfiles, htotalFiles, htotalBytes, hhashedFiles, hhashedBytes]
  by_cases hf : (statsOf files).totalFiles < 2 ^ 63
  · by_cases hb : (statsOf files).totalBytes < 2 ^ 63
    · rw [if_pos hf, if_pos hb, if_pos (by omega), if_pos (by omega)]
      simp only [castU64_of_lt hf, castU64_of_lt hb, castU64_of_lt (hfilesLe.trans_lt hf),
        castU64_of_lt (hbytesLe.trans_lt hb), hf, hb, true_and, Except.ok.injEq]
      exact eq_comm
    · rw [if_pos hf, if_neg hb]
      exact ⟨fun h => (by cases h), fun h => absurd h.2.1 hb⟩
  · rw [if_neg hf]
    exact ⟨fun h => (by cases h), fun h => absurd h.1 hf⟩

/-! ## An UPDATE that fills rows -/

section Fill

variable {scanId : Int} {chosen : Int × FileRow → Bool} {digest : Int × FileRow → Value}
variable {t : FileTable}

/-- The rows that are chosen receive a digest. -/
def fillRows (chosen : Int × FileRow → Bool) (digest : Int × FileRow → Value) (t : FileTable) :
    FileTable := t.map fun r => if chosen r then filled r (digest r) else r

/-- Only rows of the scan without a digest are chosen, and each receives one. -/
def Fills (scanId : Int) (chosen : Int × FileRow → Bool) (digest : Int × FileRow → Value)
    (t : FileTable) : Prop :=
  ∀ r ∈ t, chosen r = true → r.1 = scanId ∧ r.2.hash = .null ∧ digest r ≠ .null

/-- What becomes of a row of the scan. -/
def fillFile (scanId : Int) (chosen : Int × FileRow → Bool) (digest : Int × FileRow → Value)
    (f : FileRow) : FileRow :=
  if chosen (scanId, f) then (filled (scanId, f) (digest (scanId, f))).2 else f

theorem mem_scanFiles {f : FileRow} : f ∈ scanFiles scanId t ↔ (scanId, f) ∈ t := by
  unfold scanFiles
  simp only [List.mem_map, List.mem_filter, decide_eq_true_eq]
  constructor
  · rintro ⟨⟨i, g⟩, ⟨hr, rfl⟩, rfl⟩
    exact hr
  · exact fun h => ⟨(scanId, f), ⟨h, rfl⟩, rfl⟩

theorem scanFiles_fillRows : scanFiles scanId (fillRows chosen digest t) =
    (scanFiles scanId t).map (fillFile scanId chosen digest) := by
  unfold scanFiles fillRows
  rw [List.filter_map, List.map_map, List.map_map]
  have hsame : ∀ r ∈ t, ((fun r : Int × FileRow => decide (r.1 = scanId)) ∘
      fun r => if chosen r then filled r (digest r) else r) r = decide (r.1 = scanId) := by
    intro r _
    simp only [Function.comp_apply]
    split <;> rfl
  rw [List.filter_congr hsame]
  refine List.map_congr_left fun r hr => ?_
  obtain ⟨i, f⟩ := r
  obtain rfl : i = scanId := of_decide_eq_true (List.mem_filter.1 hr).2
  simp only [Function.comp_apply, fillFile]
  split <;> rfl

@[simp]
theorem fillFile_objectKey (f : FileRow) :
    (fillFile scanId chosen digest f).objectKey = f.objectKey := by
  unfold fillFile
  split <;> rfl

@[simp]
theorem fillFile_size (f : FileRow) : (fillFile scanId chosen digest f).size = f.size := by
  unfold fillFile
  split <;> rfl

variable (files : List FileRow)

theorem keysOf_fill : Grouping.keysOf FileRow.objectKey
    (files.map (fillFile scanId chosen digest)) = Grouping.keysOf FileRow.objectKey files :=
  Grouping.keysOf_map_of fun f _ => fillFile_objectKey f

theorem objectAt_fill (k : ObjectKey) : objectAt (files.map (fillFile scanId chosen digest)) k =
    (objectAt files k).map (fillFile scanId chosen digest) :=
  Grouping.under_map_of (fun f _ => fillFile_objectKey f) k

theorem objectSize_fill (o : List FileRow) :
    objectSize (o.map (fillFile scanId chosen digest)) = objectSize o := by
  cases o with
  | nil => rfl
  | cons f o => exact fillFile_size f

theorem eligible_fill (v : Value) :
    eligible (files.map (fillFile scanId chosen digest)) v = eligible files v := by
  have hsizes : objectSizes (files.map (fillFile scanId chosen digest)) = objectSizes files := by
    unfold objectSizes
    rw [objectsOf_eq, objectsOf_eq, keysOf_fill, List.map_map, List.map_map]
    refine List.map_congr_left fun k _ => ?_
    rw [Function.comp_apply, Function.comp_apply, objectAt_fill, objectSize_fill]
  unfold eligible eligibleSizes
  rw [hsizes]

theorem eligibleKeys_fill :
    eligibleKeys (files.map (fillFile scanId chosen digest)) = eligibleKeys files := by
  unfold eligibleKeys
  rw [keysOf_fill]
  refine List.filter_congr fun k _ => ?_
  rw [objectAt_fill, objectSize_fill, eligible_fill]

/-- The pathnames of an object that hold a digest grow by those that are chosen. -/
theorem hashedPaths_fill {o : List FileRow}
    (h : ∀ f ∈ o, chosen (scanId, f) = true → f.hash = .null ∧ digest (scanId, f) ≠ .null) :
    hashedPaths (o.map (fillFile scanId chosen digest)) =
      hashedPaths o + o.countP fun f => chosen (scanId, f) := by
  induction o with
  | nil => rfl
  | cons f o ih =>
    have hrest := ih fun g hg => h g (List.mem_cons_of_mem f hg)
    unfold hashedPaths at hrest ⊢
    rw [List.map_cons, List.countP_cons, List.countP_cons, List.countP_cons, hrest]
    by_cases hc : chosen (scanId, f) = true
    · obtain ⟨hnull, hdigest⟩ := h f List.mem_cons_self hc
      have hfilled : (fillFile scanId chosen digest f).hash = digest (scanId, f) := by
        unfold fillFile
        rw [if_pos hc]
        rfl
      simp [hfilled, hdigest, hnull, hc]
      omega
    · have hsame : fillFile scanId chosen digest f = f := if_neg hc
      simp only [hsame, hc, Bool.false_eq_true, if_false]
      omega

theorem countP_scanFiles (h : Fills scanId chosen digest t) :
    (scanFiles scanId t).countP (fun f => chosen (scanId, f)) = t.countP chosen := by
  unfold scanFiles
  rw [List.countP_map, List.countP_filter]
  refine List.countP_congr fun r hr => ?_
  obtain ⟨i, f⟩ := r
  simp only [Function.comp_apply, Bool.and_eq_true, decide_eq_true_eq]
  constructor
  · rintro ⟨hc, rfl⟩
    exact hc
  · intro hc
    obtain rfl : i = scanId := (h _ hr hc).1
    exact ⟨hc, rfl⟩

variable {files}

theorem size_key_eq {f g : FileRow} (h : f.objectKey = g.objectKey) : f.size.key = g.size.key := by
  unfold FileRow.objectKey at h
  simp only [EmbeddingLike.apply_eq_iff_eq, Prod.mk.injEq] at h
  exact h.2.2.1

/-- An object is worth hashing when the size of any of its rows is. -/
theorem mem_eligibleKeys {f : FileRow} (hf : f ∈ files) :
    f.objectKey ∈ eligibleKeys files ↔ eligible files f.size = true := by
  have hk : f.objectKey ∈ Grouping.keysOf FileRow.objectKey files :=
    Grouping.mem_keysOf.2 ⟨f, hf, rfl⟩
  obtain ⟨g, hg, hsize⟩ := objectSize_mem (objectAt_ne_nil hk)
  unfold eligibleKeys
  rw [List.mem_filter, and_iff_right hk, hsize,
    eligible_congr (size_key_eq (Grouping.mem_under.1 hg).2)]

theorem totals_fill : (statsOf (files.map (fillFile scanId chosen digest))).totalFiles =
      (statsOf files).totalFiles ∧
    (statsOf (files.map (fillFile scanId chosen digest))).totalBytes =
      (statsOf files).totalBytes := by
  unfold statsOf
  simp only [eligibleKeys_fill, objectAt_fill, objectSize_fill, List.length_map, and_self]

variable (hfills : ∀ f ∈ files, chosen (scanId, f) = true →
  f.hash = .null ∧ digest (scanId, f) ≠ .null)

include hfills

/-- **The files**: every row that is filled counts. -/
theorem hashedFiles_fill
    (heligible : ∀ f ∈ files, chosen (scanId, f) = true → eligible files f.size = true) :
    (statsOf (files.map (fillFile scanId chosen digest))).hashedFiles =
      (statsOf files).hashedFiles + files.countP fun f => chosen (scanId, f) := by
  have hown : ∀ k, hashedPaths (objectAt (files.map (fillFile scanId chosen digest)) k) =
      hashedPaths (objectAt files k) +
        (objectAt files k).countP fun f => chosen (scanId, f) := by
    intro k
    rw [objectAt_fill]
    exact hashedPaths_fill fun f hf => hfills f (Grouping.mem_under.1 hf).1
  unfold statsOf
  simp only [eligibleKeys_fill, hown]
  rw [List.sum_map_add, Grouping.sum_countP_under _ _ (nodup_eligibleKeys files)]
  refine congrArg _ (List.countP_congr fun f hf => ?_)
  simp only [Bool.and_eq_true, decide_eq_true_eq]
  exact and_iff_left_of_imp fun hc => (mem_eligibleKeys hf).2 (heligible f hf hc)

/-- **The bytes of objects that had a digest already**: nothing. -/
theorem hashedBytes_fill_alias (halias : ∀ f ∈ files, chosen (scanId, f) = true →
      ∃ g ∈ files, g.objectKey = f.objectKey ∧ g.hash ≠ .null) :
    (statsOf (files.map (fillFile scanId chosen digest))).hashedBytes =
      (statsOf files).hashedBytes := by
  have hown : ∀ k, 0 < hashedPaths (objectAt (files.map (fillFile scanId chosen digest)) k) ↔
      0 < hashedPaths (objectAt files k) := by
    intro k
    rw [objectAt_fill, hashedPaths_fill fun f hf => hfills f (Grouping.mem_under.1 hf).1]
    refine ⟨fun h => ?_, fun h => Nat.lt_add_right _ h⟩
    by_contra hnone
    rw [Nat.eq_zero_of_not_pos hnone, Nat.zero_add, List.countP_pos_iff] at h
    obtain ⟨f, hf, hc⟩ := h
    obtain ⟨hf, hk⟩ := Grouping.mem_under.1 hf
    obtain ⟨g, hg, hkey, hhash⟩ := halias f hf hc
    exact hnone (List.countP_pos_iff.2 ⟨g, Grouping.mem_under.2 ⟨hg, hkey.trans hk⟩,
      decide_eq_true hhash⟩)
  unfold statsOf
  simp only [eligibleKeys_fill, hown]
  simp only [objectAt_fill, objectSize_fill]

/-- **The bytes of an object that had none**: its size, once. -/
theorem hashedBytes_fill_first {f : FileRow} (hf : f ∈ files) (hc : chosen (scanId, f) = true)
    (heligible : eligible files f.size = true)
    (hone : ∀ g ∈ files, chosen (scanId, g) = true → g.objectKey = f.objectKey)
    (hfirst : ∀ g ∈ files, g.objectKey = f.objectKey → g.hash = .null) :
    (statsOf (files.map (fillFile scanId chosen digest))).hashedBytes =
      (statsOf files).hashedBytes + sizeNat (objectSize (objectAt files f.objectKey)) := by
  have hown : ∀ k, hashedPaths (objectAt (files.map (fillFile scanId chosen digest)) k) =
      hashedPaths (objectAt files k) +
        (objectAt files k).countP fun f => chosen (scanId, f) := by
    intro k
    rw [objectAt_fill]
    exact hashedPaths_fill fun f hf => hfills f (Grouping.mem_under.1 hf).1
  unfold statsOf
  simp only [eligibleKeys_fill]
  refine Grouping.sum_map_eq_add (nodup_eligibleKeys files) ((mem_eligibleKeys hf).2 heligible) ?_
    fun k _ hk => ?_
  · have hnone : hashedPaths (objectAt files f.objectKey) = 0 := by
      refine List.countP_eq_zero.2 fun g hg => ?_
      obtain ⟨hg, hkey⟩ := Grouping.mem_under.1 hg
      simp [hfirst g hg hkey]
    have hsome : 0 < (objectAt files f.objectKey).countP fun f => chosen (scanId, f) :=
      List.countP_pos_iff.2 ⟨f, Grouping.mem_under.2 ⟨hf, rfl⟩, hc⟩
    rw [hown, hnone, if_pos (by omega), if_neg (lt_irrefl 0), objectAt_fill, objectSize_fill,
      Nat.zero_add]
  · have hnone : ((objectAt files k).countP fun f => chosen (scanId, f)) = 0 := by
      refine List.countP_eq_zero.2 fun g hg hcg => ?_
      obtain ⟨hg, hkey⟩ := Grouping.mem_under.1 hg
      exact hk (hkey.symm.trans (hone g hg hcg))
    rw [hown, hnone, Nat.add_zero, objectAt_fill, objectSize_fill]

end Fill

/-! ## Between checkpoints, and inside one -/

/-- The object that a candidate stands for. -/
def ManifestRow.objectKey (c : ManifestRow) : ObjectKey :=
  toLex (castI64 c.device, toLex (castI64 c.inode, toLex ((Value.integer (castI64 c.size)).key,
    toLex (c.mtime, toLex (c.mtimeNsec, toLex (c.ctimeSec, c.ctimeNsec))))))

theorem verifiedRow_objectKey {scanId : Int} {c : ManifestRow} {r : Int × FileRow}
    (h : verifiedRow scanId c r = true) : r.2.objectKey = c.objectKey := by
  obtain ⟨-, -, -, hsize, hm, hmn, hcs, hcn, hd, hi⟩ := verifiedRow_iff.1 h
  unfold FileRow.objectKey ManifestRow.objectKey
  rw [(Value.same_iff.1 hsize).2, hm, hmn, hcs, hcn, hd, hi]

/-- What no UPDATE of a session changes: the keys and sizes of the table, the digests that are
    trusted, and what the candidates stand for. -/
structure Session (scanId : Int) (cands : List ManifestRow) (t : FileTable) : Prop where
  keyed : t.Pairwise fun a b => ¬(a.1 = b.1 ∧ Value.same a.2.path b.2.path = true)
  stored : Stored (scanFiles scanId t)
  versions : ∀ r ∈ t, r.1 = scanId → r.2.hash ≠ .null → r.2.identityVersion = 1
  sizes : ∀ c ∈ cands, c.size < 2 ^ 64 ∧
    eligible (scanFiles scanId t) (.integer (castI64 c.size)) = true
  distinct : ∀ c ∈ cands, ∀ c' ∈ cands, c.objectKey = c'.objectKey → c.path = c'.path

/-- The object of a row that a candidate verifies has no digest. -/
def Fresh (scanId : Int) (cands : List ManifestRow) (t : FileTable) : Prop :=
  ∀ c ∈ cands, ∀ r ∈ t, verifiedRow scanId c r = true →
    ∀ g ∈ t, g.1 = scanId → g.2.objectKey = r.2.objectKey → g.2.hash = .null

/-- Every row that is still to be filled from its object is of one that is to be propagated. -/
def Pending (scanId : Int) (objects : List (Nat × Nat)) (t : FileTable) : Prop :=
  ∀ r ∈ t, r.1 = scanId → r.2.hash = .null → ∀ src ∈ t, trustedSource r src = true →
    eligible (scanFiles scanId t) r.2.size = true ∧
      ∃ object ∈ objects, r.2.device = castI64 object.1 ∧ r.2.inode = castI64 object.2

/-- The totals stay, and the two counts advance. -/
structure Advance (scanId : Int) (t t' : FileTable) (files bytes : Nat) : Prop where
  totalFiles : (statsOf (scanFiles scanId t')).totalFiles =
    (statsOf (scanFiles scanId t)).totalFiles
  totalBytes : (statsOf (scanFiles scanId t')).totalBytes =
    (statsOf (scanFiles scanId t)).totalBytes
  hashedFiles : (statsOf (scanFiles scanId t')).hashedFiles =
    (statsOf (scanFiles scanId t)).hashedFiles + files
  hashedBytes : (statsOf (scanFiles scanId t')).hashedBytes =
    (statsOf (scanFiles scanId t)).hashedBytes + bytes

theorem Advance.refl (scanId : Int) (t : FileTable) : Advance scanId t t 0 0 := ⟨rfl, rfl, rfl, rfl⟩

theorem Advance.trans {scanId : Int} {t t' t'' : FileTable} {m n b c : Nat}
    (h : Advance scanId t t' m b) (h' : Advance scanId t' t'' n c) :
    Advance scanId t t'' (m + n) (b + c) where
  totalFiles := h'.totalFiles.trans h.totalFiles
  totalBytes := h'.totalBytes.trans h.totalBytes
  hashedFiles := by rw [h'.hashedFiles, h.hashedFiles, Nat.add_assoc]
  hashedBytes := by rw [h'.hashedBytes, h.hashedBytes, Nat.add_assoc]

section Steps

variable {scanId : Int} {cands : List ManifestRow} {t : FileTable}
variable {chosen : Int × FileRow → Bool} {digest : Int × FileRow → Value}

theorem mem_fillRows {r' : Int × FileRow} (h : r' ∈ fillRows chosen digest t) :
    ∃ r ∈ t, (chosen r = true ∧ r' = filled r (digest r)) ∨ (chosen r = false ∧ r' = r) := by
  obtain ⟨r, hr, rfl⟩ := List.mem_map.1 h
  refine ⟨r, hr, ?_⟩
  cases hc : chosen r with
  | true => exact .inl ⟨rfl, if_pos rfl⟩
  | false => exact .inr ⟨rfl, if_neg Bool.false_ne_true⟩

theorem Session.unique (h : Session scanId cands t) {a b : Int × FileRow} (ha : a ∈ t) (hb : b ∈ t)
    (hscan : a.1 = b.1) (hpath : Value.same a.2.path b.2.path = true) : a = b := by
  by_contra hne
  have : Std.Symm fun a b : Int × FileRow =>
      ¬(a.1 = b.1 ∧ Value.same a.2.path b.2.path = true) := ⟨fun x y hxy hyx =>
    hxy ⟨hyx.1.symm, (Value.same_comm x.2.path y.2.path).trans hyx.2⟩⟩
  exact h.keyed.forall ha hb hne ⟨hscan, hpath⟩

theorem Session.fill (h : Session scanId cands t) :
    Session scanId cands (fillRows chosen digest t) where
  keyed := by
    unfold fillRows
    rw [List.pairwise_map]
    refine h.keyed.imp fun {a b} hne => ?_
    split <;> split <;> exact hne
  stored := by
    rw [scanFiles_fillRows]
    intro f' hf'
    obtain ⟨f, hf, rfl⟩ := List.mem_map.1 hf'
    unfold fillFile
    split <;> exact h.stored f hf
  versions := by
    intro r' hr' hscan hhash
    obtain ⟨r, hr, ⟨-, rfl⟩ | ⟨-, rfl⟩⟩ := mem_fillRows hr'
    · rfl
    · exact h.versions r' hr hscan hhash
  sizes := fun c hc => by
    rw [scanFiles_fillRows, eligible_fill]
    exact h.sizes c hc
  distinct := h.distinct

theorem scanFiles_fills (hfills : Fills scanId chosen digest t) :
    ∀ f ∈ scanFiles scanId t, chosen (scanId, f) = true →
      f.hash = .null ∧ digest (scanId, f) ≠ .null := fun f hf hc =>
  (hfills (scanId, f) (mem_scanFiles.1 hf) hc).2

theorem fillRows_none (h : t.countP chosen = 0) : fillRows chosen digest t = t := by
  unfold fillRows
  refine (List.map_congr_left fun r hr => ?_).trans (List.map_id t)
  exact if_neg (List.countP_eq_zero.1 h r hr)

theorem verified_fills (row : ManifestRow × Bytes) :
    Fills scanId (verifiedRow scanId row.1) (fun _ => .blob row.2) t := fun r _ hc => by
  obtain ⟨hscan, -, hnull, -⟩ := verifiedRow_iff.1 hc
  exact ⟨hscan, hnull, Value.noConfusion⟩

theorem propagates_fills (picks : FileRow → Bool) :
    Fills scanId (propagates scanId picks t) (sourceDigest t) t := fun r _ hc => by
  obtain ⟨hscan, hnull, -, hsource⟩ := propagates_iff.1 hc
  exact ⟨hscan, hnull, (sourceDigest_from hsource).ne_null⟩

theorem Session.count_le_one (h : Session scanId cands t) (c : ManifestRow) :
    t.countP (verifiedRow scanId c) ≤ 1 := by
  rw [List.countP_eq_length_filter]
  rcases hfilter : t.filter (verifiedRow scanId c) with _ | ⟨a, _ | ⟨b, rest⟩⟩
  · exact Nat.zero_le 1
  · exact le_rfl
  exfalso
  have hpair := h.keyed.filter (verifiedRow scanId c)
  have ha : verifiedRow scanId c a = true := List.of_mem_filter (hfilter ▸ List.mem_cons_self)
  have hb : verifiedRow scanId c b = true :=
    List.of_mem_filter (hfilter ▸ List.mem_cons_of_mem a List.mem_cons_self)
  rw [hfilter] at hpair
  obtain ⟨hscanA, hpathA, -⟩ := verifiedRow_iff.1 ha
  obtain ⟨hscanB, hpathB, -⟩ := verifiedRow_iff.1 hb
  refine List.rel_of_pairwise_cons hpair List.mem_cons_self ⟨hscanA.trans hscanB.symm, ?_⟩
  rw [hpathA, hpathB]
  exact Value.same_text.2 rfl

/-- The total of files after an UPDATE of rows worth hashing. -/
theorem advance_files (hfills : Fills scanId chosen digest t)
    (heligible : ∀ r ∈ t, chosen r = true → eligible (scanFiles scanId t) r.2.size = true) :
    (statsOf (scanFiles scanId (fillRows chosen digest t))).hashedFiles =
      (statsOf (scanFiles scanId t)).hashedFiles + t.countP chosen := by
  rw [scanFiles_fillRows, hashedFiles_fill (scanFiles_fills hfills)
    (fun f hf hc => heligible (scanId, f) (mem_scanFiles.1 hf) hc), countP_scanFiles hfills]

/-- **One representative**: a row and its size, or nothing at all. -/
theorem commitRow_advance (h : Session scanId cands t) (hfresh : Fresh scanId cands t)
    {row : ManifestRow × Bytes} (hrow : row.1 ∈ cands) :
    Session scanId cands (commitRow scanId row.1 row.2 t).2 ∧
      Fresh scanId cands (commitRow scanId row.1 row.2 t).2 ∧
      (commitRow scanId row.1 row.2 t).1 ≤ 1 ∧
      Advance scanId t (commitRow scanId row.1 row.2 t).2 (commitRow scanId row.1 row.2 t).1
        (if 0 < (commitRow scanId row.1 row.2 t).1 then row.1.size else 0) := by
  have hfills : Fills scanId (verifiedRow scanId row.1) (fun _ => .blob row.2) t := verified_fills row
  show Session scanId cands (fillRows (verifiedRow scanId row.1) (fun _ => .blob row.2) t) ∧
    Fresh scanId cands (fillRows (verifiedRow scanId row.1) (fun _ => .blob row.2) t) ∧
    t.countP (verifiedRow scanId row.1) ≤ 1 ∧
    Advance scanId t (fillRows (verifiedRow scanId row.1) (fun _ => .blob row.2) t)
      (t.countP (verifiedRow scanId row.1))
      (if 0 < t.countP (verifiedRow scanId row.1) then row.1.size else 0)
  have heligible : ∀ r ∈ t, verifiedRow scanId row.1 r = true →
      eligible (scanFiles scanId t) r.2.size = true := fun r _ hc => by
    have hsize := (verifiedRow_iff.1 hc).2.2.2.1
    rw [eligible_congr (Value.same_iff.1 hsize).2]
    exact (h.sizes row.1 hrow).2
  refine ⟨h.fill, ?_, h.count_le_one row.1, ?_⟩
  · intro c hc r' hr' hv g' hg' hscan hkey
    obtain ⟨r, hr, ⟨-, rfl⟩ | ⟨hnot, rfl⟩⟩ := mem_fillRows hr'
    · cases (verifiedRow_iff.1 hv).2.2.1
    obtain ⟨g, hg, ⟨hg₁, rfl⟩ | ⟨-, rfl⟩⟩ := mem_fillRows hg'
    · -- The committed row is the one that the other candidate would verify.
      have hpath := h.distinct c hc row.1 hrow (by
        rw [← verifiedRow_objectKey hv, ← verifiedRow_objectKey hg₁]
        exact hkey.symm)
      obtain ⟨hscanR, hpathR, -⟩ := verifiedRow_iff.1 hv
      obtain ⟨hscanG, hpathG, -⟩ := verifiedRow_iff.1 hg₁
      have heq : r' = g := h.unique hr hg (hscanR.trans hscanG.symm) (by
        rw [hpathR, hpathG, hpath]
        exact Value.same_text.2 rfl)
      rw [heq, hg₁] at hnot
      cases hnot
    · exact hfresh c hc r' hr hv g' hg hscan hkey
  · rcases Nat.eq_zero_or_pos (t.countP (verifiedRow scanId row.1)) with hzero | hpos
    · rw [hzero, if_neg (lt_irrefl 0), fillRows_none hzero]
      exact Advance.refl scanId t
    rw [if_pos hpos]
    obtain ⟨r, hr, hc⟩ := List.countP_pos_iff.1 hpos
    obtain ⟨i, f⟩ := r
    obtain ⟨hscan, -, hnull, hsize, -⟩ := verifiedRow_iff.1 hc
    obtain rfl : i = scanId := hscan
    have hf := mem_scanFiles.2 hr
    refine ⟨?_, ?_, advance_files hfills heligible, ?_⟩
    · rw [scanFiles_fillRows]
      exact totals_fill.1
    · rw [scanFiles_fillRows]
      exact totals_fill.2
    rw [scanFiles_fillRows, hashedBytes_fill_first (scanFiles_fills hfills) hf hc
      (heligible (i, f) hr hc)
      (fun g hg hcg => (verifiedRow_objectKey hcg).trans (verifiedRow_objectKey hc).symm)
      (fun g hg hkey => hfresh row.1 hrow (i, f) hr hc (i, g) (mem_scanFiles.1 hg) rfl hkey)]
    have hk : f.objectKey ∈ Grouping.keysOf FileRow.objectKey (scanFiles i t) :=
      Grouping.mem_keysOf.2 ⟨f, hf, rfl⟩
    obtain ⟨g, hg, hgsize⟩ := objectSize_mem (objectAt_ne_nil hk)
    obtain ⟨hg, hgkey⟩ := Grouping.mem_under.1 hg
    obtain ⟨⟨n, -, hn⟩, -⟩ := h.stored g hg
    obtain ⟨⟨m, -, hm⟩, -⟩ := h.stored f hf
    have hfg := size_key_eq hgkey
    rw [hgsize, hn]
    rw [hn, hm] at hfg
    have hnm : (n : Int) = m := Value.same_integer.1 (Value.same_iff.2 ⟨Value.noConfusion, hfg⟩)
    rw [hm, Value.same_integer] at hsize
    have hlt := (h.sizes row.1 hrow).1
    have hnat : sizeNat (.integer (n : Int)) = n := Int.toNat_natCast n
    rw [hnat]
    unfold castI64 at hsize
    rw [Nat.mod_eq_of_lt hlt] at hsize
    congr 1
    split at hsize <;> omega

theorem Pending.mono {objects objects' : List (Nat × Nat)} (h : Pending scanId objects t)
    (hsub : ∀ o ∈ objects, o ∈ objects') : Pending scanId objects' t := fun r hr hscan hnull src hsrc hs =>
  let ⟨heligible, object, hmem, hmatch⟩ := h r hr hscan hnull src hsrc hs
  ⟨heligible, object, hsub object hmem, hmatch⟩

/-- What a representative leaves to be spread is of its own object. -/
theorem commitRow_pending (h : Session scanId cands t) {committed : List (Nat × Nat)}
    (hpending : Pending scanId committed t) {row : ManifestRow × Bytes} (hrow : row.1 ∈ cands) :
    Pending scanId (if 0 < (commitRow scanId row.1 row.2 t).1 then
        committed ++ [(row.1.device, row.1.inode)] else committed)
      (commitRow scanId row.1 row.2 t).2 := by
  show Pending scanId (if 0 < t.countP (verifiedRow scanId row.1) then
      committed ++ [(row.1.device, row.1.inode)] else committed)
    (fillRows (verifiedRow scanId row.1) (fun _ => .blob row.2) t)
  rcases Nat.eq_zero_or_pos (t.countP (verifiedRow scanId row.1)) with hzero | hpos
  · rw [if_neg (by omega), fillRows_none hzero]
    exact hpending
  rw [if_pos hpos]
  intro r' hr' hscan hnull src' hsrc' hs
  rw [scanFiles_fillRows, eligible_fill]
  obtain ⟨r, hr, ⟨-, rfl⟩ | ⟨-, rfl⟩⟩ := mem_fillRows hr'
  · cases hnull
  obtain ⟨hsrcScan, hsame, htrusted⟩ := trustedSource_iff.1 hs
  obtain ⟨src, hsrc, ⟨hc, rfl⟩ | ⟨-, rfl⟩⟩ := mem_fillRows hsrc'
  · obtain ⟨-, -, -, hsize, -, -, -, -, hd, hi⟩ := verifiedRow_iff.1 hc
    rw [filled_sameObject_left] at hsame
    have hkey := (FileRow.sameObject_iff.1 hsame).2
    refine ⟨?_, (row.1.device, row.1.inode), List.mem_append_right _ (List.mem_singleton.2 rfl), ?_⟩
    · rw [eligible_congr ((size_key_eq hkey).symm.trans (Value.same_iff.1 hsize).2)]
      exact (h.sizes row.1 hrow).2
    · unfold FileRow.objectKey at hkey
      simp only [EmbeddingLike.apply_eq_iff_eq, Prod.mk.injEq] at hkey
      exact ⟨hkey.1.symm.trans hd, hkey.2.1.symm.trans hi⟩
  · obtain ⟨heligible, object, hmem, hmatch⟩ := hpending r' hr hscan hnull src' hsrc hs
    exact ⟨heligible, object, List.mem_append_left _ hmem, hmatch⟩

/-- **The representatives of a checkpoint**, one after the other. -/
theorem commitRows_advance : ∀ {rows : List (ManifestRow × Bytes)} {p : PersistedHashes}
    {committed : List (Nat × Nat)} {t : FileTable}, (∀ row ∈ rows, row.1 ∈ cands) →
    Session scanId cands t → Fresh scanId cands t → Pending scanId committed t → p.bytes < 2 ^ 64 →
    ∃ n bytes p' committed' t', commitRows scanId rows (p, committed, t) = (p', committed', t') ∧
      Session scanId cands t' ∧ Pending scanId committed' t' ∧ Advance scanId t t' n bytes ∧
      n ≤ rows.length ∧ p'.files = p.files + n ∧ p'.representatives = p.representatives + n ∧
      p'.bytes = (p.bytes + bytes) % 2 ^ 64
  | [], p, committed, t, _, h, _, hpending, hbytes =>
    ⟨0, 0, p, committed, t, rfl, h, hpending, Advance.refl scanId t, le_rfl, rfl, rfl,
      (Nat.mod_eq_of_lt hbytes).symm⟩
  | row :: rows, p, committed, t, hrows, h, hfresh, hpending, hbytes => by
    have hrow := hrows row List.mem_cons_self
    obtain ⟨hsession, hfresh', hle, hadvance⟩ := commitRow_advance h hfresh hrow
    have hpending' := commitRow_pending h hpending hrow
    have hrest := fun p committed => @commitRows_advance rows p committed _
      (fun row' h' => hrows row' (List.mem_cons_of_mem row h')) hsession hfresh'
    unfold commitRows
    simp only
    generalize hupdate : commitRow scanId row.1 row.2 t = update at *
    by_cases hpos : 0 < update.1
    · rw [if_pos hpos] at hadvance hpending' ⊢
      obtain ⟨n, bytes, p', committed', t', hrun, hsession', hpending'', hadvance', hlen, hfiles,
        hreps, hb⟩ := hrest
          ⟨p.files + update.1, (p.bytes + row.1.size) % 2 ^ 64, p.representatives + update.1⟩ _
          hpending' (Nat.mod_lt _ (by decide))
      refine ⟨update.1 + n, row.1.size + bytes, p', committed', t', hrun, hsession', hpending'',
        hadvance.trans hadvance', ?_, ?_, ?_, ?_⟩
      · rw [List.length_cons]
        omega
      · rw [hfiles, Nat.add_assoc]
      · rw [hreps, Nat.add_assoc]
      · rw [hb]
        simp only
        rw [Nat.mod_add_mod, Nat.add_assoc]
    · rw [if_neg hpos] at hadvance hpending' ⊢
      have hzero : update.1 = 0 := by omega
      rw [hzero] at hadvance
      obtain ⟨n, bytes, p', committed', t', hrun, hsession', hpending'', hadvance', hlen, hfiles,
        hreps, hb⟩ := hrest p _ hpending' hbytes
      refine ⟨0 + n, 0 + bytes, p', committed', t', hrun, hsession', hpending'',
        hadvance.trans hadvance', ?_, ?_, ?_, ?_⟩
      · rw [List.length_cons]
        omega
      · rw [hfiles, Nat.zero_add]
      · rw [hreps, Nat.zero_add]
      · rw [hb, Nat.zero_add]

/-- A source that a propagation has filled had one before. -/
theorem source_of_propagated {picks : FileRow → Bool} {r src' : Int × FileRow}
    (hsrc' : src' ∈ fillRows (propagates scanId picks t) (sourceDigest t) t)
    (hs : trustedSource r src' = true) : ∃ src ∈ t, trustedSource r src = true := by
  obtain ⟨hscan, hsame, -⟩ := trustedSource_iff.1 hs
  obtain ⟨src, hsrc, ⟨hc, rfl⟩ | ⟨-, rfl⟩⟩ := mem_fillRows hsrc'
  · obtain ⟨-, -, -, origin, horigin, ho⟩ := propagates_iff.1 hc
    obtain ⟨hoScan, hoSame, hoTrusted⟩ := trustedSource_iff.1 ho
    rw [filled_sameObject_left] at hsame
    exact ⟨origin, horigin, trustedSource_iff.2 ⟨hoScan.trans hscan,
      FileRow.sameObject_trans hoSame hsame, hoTrusted⟩⟩
  · exact ⟨src', hsrc, hs⟩

/-- **One propagation statement**: every row it fills counts, and no byte. -/
theorem propagateObject_advance (h : Session scanId cands t) {objects : List (Nat × Nat)}
    (hpending : Pending scanId objects t) (object : Nat × Nat) :
    Session scanId cands (propagateObject scanId object t).2 ∧
      Pending scanId (objects.filter fun o => decide (o ≠ object))
        (propagateObject scanId object t).2 ∧
      Advance scanId t (propagateObject scanId object t).2 (propagateObject scanId object t).1 0 := by
  generalize hpicks : (fun f : FileRow =>
    decide (f.device = castI64 object.1 ∧ f.inode = castI64 object.2)) = picks
  have hstep : propagateObject scanId object t = propagateChosen scanId picks t := by
    rw [← hpicks]
    rfl
  rw [hstep]
  have hfills : Fills scanId (propagates scanId picks t) (sourceDigest t) t := propagates_fills picks
  show Session scanId cands (fillRows (propagates scanId picks t) (sourceDigest t) t) ∧
    Pending scanId _ (fillRows (propagates scanId picks t) (sourceDigest t) t) ∧
    Advance scanId t (fillRows (propagates scanId picks t) (sourceDigest t) t)
      (t.countP (propagates scanId picks t)) 0
  refine ⟨h.fill, ?_, ?_⟩
  · intro r' hr' hscan hnull src' hsrc' hs
    rw [scanFiles_fillRows, eligible_fill]
    obtain ⟨r, hr, ⟨hc, rfl⟩ | ⟨hnot, rfl⟩⟩ := mem_fillRows hr'
    · exact absurd hnull (hfills r hr hc).2.2
    obtain ⟨src, hsrc, hs'⟩ := source_of_propagated hsrc' hs
    obtain ⟨heligible, o, ho, hmatch⟩ := hpending r' hr hscan hnull src hsrc hs'
    refine ⟨heligible, o, List.mem_filter.2 ⟨ho, decide_eq_true fun heq => ?_⟩, hmatch⟩
    have hc : propagates scanId picks t r' = true := propagates_iff.2
      ⟨hscan, hnull, by rw [← hpicks, ← heq]; exact decide_eq_true hmatch, src, hsrc, hs'⟩
    rw [hc] at hnot
    cases hnot
  · have heligible : ∀ r ∈ t, propagates scanId picks t r = true →
        eligible (scanFiles scanId t) r.2.size = true := fun r hr hc => by
      obtain ⟨hscan, hnull, -, src, hsrc, hs⟩ := propagates_iff.1 hc
      exact (hpending r hr hscan hnull src hsrc hs).1
    refine ⟨?_, ?_, advance_files hfills heligible, ?_⟩
    · rw [scanFiles_fillRows]
      exact totals_fill.1
    · rw [scanFiles_fillRows]
      exact totals_fill.2
    · rw [scanFiles_fillRows, Nat.add_zero]
      refine hashedBytes_fill_alias (scanFiles_fills hfills) fun f hf hc => ?_
      obtain ⟨-, -, -, src, hsrc, hs⟩ := propagates_iff.1 hc
      obtain ⟨hscan, hsame, htrusted⟩ := trustedSource_iff.1 hs
      refine ⟨src.2, mem_scanFiles.2 ?_, (FileRow.sameObject_iff.1 hsame).2,
        (trusted_iff.1 htrusted).2⟩
      have hown : src.1 = scanId := hscan
      rw [← hown]
      exact hsrc

/-- **The statements of a checkpoint** leave nothing to be spread. -/
theorem propagateCommittedObjects_advance : ∀ {objects seen : List (Nat × Nat)} {filled : Nat}
    {t : FileTable}, Session scanId cands t →
    Pending scanId (objects.filter fun o => decide (o ∉ seen)) t →
    ∃ n t', propagateCommittedObjects scanId seen objects filled t = (filled + n, t') ∧
      Session scanId cands t' ∧ Settled scanId t' ∧ Advance scanId t t' n 0
  | [], seen, filled, t, h, hpending => by
    refine ⟨0, t, rfl, h, fun r hr hscan hnull src hsrc => ?_, Advance.refl scanId t⟩
    rw [← Bool.not_eq_true]
    intro hs
    obtain ⟨-, o, ho, -⟩ := hpending r hr hscan hnull src hsrc hs
    cases ho
  | object :: objects, seen, filled, t, h, hpending => by
    unfold propagateCommittedObjects
    by_cases hseen : object ∈ seen
    · rw [if_pos hseen]
      rw [List.filter_cons_of_neg (by simpa using hseen)] at hpending
      exact propagateCommittedObjects_advance h hpending
    rw [if_neg hseen]
    simp only
    obtain ⟨hsession, hpending', hadvance⟩ := propagateObject_advance h hpending object
    obtain ⟨n, t', hrun, hsession', hsettled, hadvance'⟩ :=
      @propagateCommittedObjects_advance objects (object :: seen)
        (filled + (propagateObject scanId object t).1) _ hsession (hpending'.mono fun o ho => by
          simp only [List.mem_filter, List.mem_cons, decide_eq_true_eq, not_or] at ho ⊢
          obtain ⟨⟨rfl | ho, hns⟩, hne⟩ := ho
          · exact absurd rfl hne
          · exact ⟨ho, hne, hns⟩)
    refine ⟨(propagateObject scanId object t).1 + n, t', ?_, hsession', hsettled, ?_⟩
    · rw [hrun, Nat.add_assoc]
    · exact hadvance.trans hadvance'

/-- Between checkpoints, an object without a digest on the row a candidate verifies has none. -/
theorem Session.fresh (h : Session scanId cands t) (hsettled : Settled scanId t) :
    Fresh scanId cands t := by
  intro c _ r hr hv g hg hscan hkey
  by_contra hhash
  obtain ⟨hrscan, -, hnull, -⟩ := verifiedRow_iff.1 hv
  have hsize : g.2.size ≠ .null := by
    obtain ⟨⟨n, -, hn⟩, -⟩ := h.stored g.2 (mem_scanFiles.2 (hscan ▸ hg))
    rw [hn]
    exact Value.noConfusion
  have hsource := hsettled r hr hrscan hnull g hg
  rw [trustedSource_iff.2 ⟨hscan.trans hrscan.symm, FileRow.sameObject_iff.2 ⟨hsize, hkey⟩,
    trusted_iff.2 ⟨h.versions g hg hscan hhash, hhash⟩⟩] at hsource
  cases hsource

theorem Settled.pending (h : Settled scanId t) : Pending scanId [] t :=
  fun r hr hscan hnull src hsrc hs => by
    rw [h r hr hscan hnull src hsrc] at hs
    cases hs

/-- **One checkpoint** of candidates: what it persists is the advance of the totals, modulo the
    width of a byte count. -/
theorem checkpoint_advance {rows : List (ManifestRow × Bytes)} (h : Session scanId cands t)
    (hsettled : Settled scanId t) (hrows : ∀ row ∈ rows, row.1 ∈ cands) :
    ∃ persisted t' bytes, recordHashesVerified scanId rows t = (.ok persisted, t') ∧
      Session scanId cands t' ∧ Settled scanId t' ∧ Advance scanId t t' persisted.files bytes ∧
      persisted.bytes = bytes % 2 ^ 64 ∧ persisted.representatives ≤ rows.length := by
  obtain ⟨n, bytes, p, committed, t₁, hrun, hsession, hpending, hadvance, hlen, hfiles, hreps,
    hbytes⟩ := commitRows_advance (p := ⟨0, 0, 0⟩) hrows h (h.fresh hsettled) hsettled.pending
      (by decide)
  obtain ⟨m, t₂, hspread, hsession', hsettled', hadvance'⟩ :=
    @propagateCommittedObjects_advance _ _ committed [] 0 _ hsession (hpending.mono fun o ho => by
      simpa using ho)
  refine ⟨{ p with files := p.files + m }, t₂, bytes, ?_, hsession', hsettled', ?_, ?_, ?_⟩
  · unfold recordHashesVerified Tx.atomically
    simp only
    rw [hrun]
    simp only
    rw [hspread, Nat.zero_add]
  · have hsum := hadvance.trans hadvance'
    rw [Nat.add_zero] at hsum
    rw [hfiles, Nat.zero_add]
    exact hsum
  · rw [hbytes, Nat.zero_add]
  · rw [hreps, Nat.zero_add]
    exact hlen

/-! ## The start of a session -/

/-- The pass over the scan leaves nothing to be spread. -/
theorem propagateTrustedDigests_settled :
    Settled scanId (propagateTrustedDigests scanId t).2 := by
  intro r' hr' hscan hnull src' hsrc'
  rw [← Bool.not_eq_true]
  intro hs
  obtain ⟨src, hsrc, hs'⟩ := source_of_propagated hsrc' hs
  obtain ⟨r, hr, ⟨hc, rfl⟩ | ⟨hnot, rfl⟩⟩ := mem_fillRows hr'
  · exact (propagates_fills (fun _ => true) r hr hc).2.2 hnull
  · rw [propagates_iff.2 ⟨hscan, hnull, rfl, src, hsrc, hs'⟩] at hnot
    cases hnot

theorem castI64_castU64 {n : Int} (h : -2 ^ 63 ≤ n ∧ n < 2 ^ 63) : castI64 (castU64 n) = n := by
  unfold castI64 castU64
  split <;> omega

/-- A candidate stands for the object its rows are of. -/
theorem candidateRow_ok {rows : List FileRow} {c : ManifestRow} (h : candidateRow rows = .ok c) :
    ∃ f ∈ rows, ∃ n, f.size = .integer n ∧ c.size = castU64 n ∧ c.mtime = f.mtime ∧
      c.mtimeNsec = f.mtimeNsec ∧ c.ctimeSec = f.ctimeSec ∧ c.ctimeNsec = f.ctimeNsec ∧
      c.device = castU64 f.device ∧ c.inode = castU64 f.inode := by
  unfold candidateRow at h
  split at h
  · cases h
  rename_i f rest
  split at h
  · cases h
  split at h
  · cases h
  rename_i n hn
  split at h
  · cases h
  cases h
  exact ⟨f, List.mem_cons_self, n, getInteger_ok.1 hn, rfl, rfl, rfl, rfl, rfl, rfl, rfl⟩

theorem candidateRows_ok : ∀ {groups : List (List FileRow)} {cs : List ManifestRow},
    candidateRows groups = .ok cs →
      cs.length = groups.length ∧ ∀ c ∈ cs, ∃ rows ∈ groups, candidateRow rows = .ok c
  | [], cs, h => by
    cases h
    exact ⟨rfl, fun c hc => by cases hc⟩
  | rows :: groups, cs, h => by
    unfold candidateRows at h
    split at h
    · cases h
    rename_i c hc
    split at h
    · cases h
    rename_i files hfiles
    cases h
    obtain ⟨hlen, hall⟩ := candidateRows_ok hfiles
    refine ⟨by rw [List.length_cons, List.length_cons, hlen], fun c' hc' => ?_⟩
    rcases List.mem_cons.1 hc' with rfl | hc'
    · exact ⟨rows, List.mem_cons_self, hc⟩
    · obtain ⟨rows', hrows', hok⟩ := hall c' hc'
      exact ⟨rows', List.mem_cons_of_mem _ hrows', hok⟩

/-- The rows that candidates are chosen among. -/
def unhashedEligible (files : List FileRow) : List FileRow :=
  files.filter fun f => decide (f.hash = .null) && eligible files f.size

theorem mem_unhashedEligible {files : List FileRow} {f : FileRow} :
    f ∈ unhashedEligible files ↔ f ∈ files ∧ f.hash = .null ∧ eligible files f.size = true := by
  simp [unhashedEligible]

/-- What a candidate is, by the object of its key. -/
theorem candidateObjects_ok (hstored : Stored (scanFiles scanId t))
    (h : candidateObjects scanId t = .ok cands) :
    cands.length = (Grouping.keysOf FileRow.objectKey (unhashedEligible (scanFiles scanId t))).length ∧
      ∀ c ∈ cands, c.size < 2 ^ 64 ∧
        eligible (scanFiles scanId t) (.integer (castI64 c.size)) = true ∧
        candidateRow (objectAt (unhashedEligible (scanFiles scanId t)) c.objectKey) = .ok c := by
  unfold candidateObjects at h
  simp only at h
  obtain ⟨hlen, hall⟩ := candidateRows_ok h
  rw [objectsOf_eq, List.length_map] at hlen
  refine ⟨hlen, fun c hc => ?_⟩
  obtain ⟨rows, hrows, hrow⟩ := hall c hc
  rw [objectsOf_eq] at hrows
  obtain ⟨k, -, rfl⟩ := List.mem_map.1 hrows
  obtain ⟨f, hf, n, hn, hsize, hm, hmn, hcs, hcn, hd, hi⟩ := candidateRow_ok hrow
  obtain ⟨hf, hk⟩ := Grouping.mem_under.1 hf
  obtain ⟨hfile, -, heligible⟩ := mem_unhashedEligible.1 hf
  obtain ⟨⟨m, hmlt, hm'⟩, hdev, hino⟩ := hstored f hfile
  obtain rfl : n = m := by
    rw [hn] at hm'
    cases hm'
    rfl
  have hcast : castI64 c.size = m := by
    rw [hsize]
    exact castI64_castU64 ⟨by omega, by omega⟩
  refine ⟨?_, ?_, ?_⟩
  · rw [hsize]
    unfold castU64
    omega
  · rw [hcast, ← hn]
    exact heligible
  · have hkey : c.objectKey = k := by
      rw [← hk]
      unfold ManifestRow.objectKey FileRow.objectKey
      rw [hcast, hm, hmn, hcs, hcn, hd, hi, castI64_castU64 hdev, castI64_castU64 hino, hn]
    rw [hkey]
    exact hrow

/-- **Choosing the candidates opens the session.** -/
theorem Session.choose (h : Session scanId [] t) (hcands : candidateObjects scanId t = .ok cands) :
    Session scanId cands t where
  keyed := h.keyed
  stored := h.stored
  versions := h.versions
  sizes := fun c hc =>
    let hown := (candidateObjects_ok h.stored hcands).2 c hc
    ⟨hown.1, hown.2.1⟩
  distinct := fun c hc c' hc' hkey => by
    have hown := ((candidateObjects_ok h.stored hcands).2 c hc).2.2
    have hown' := ((candidateObjects_ok h.stored hcands).2 c' hc').2.2
    rw [hkey, hown'] at hown
    cases hown
    rfl

theorem inheritHashes_session (h : Session scanId cands t) :
    Session scanId cands (inheritHashes scanId t).2 := by
  unfold inheritHashes Tx.atomically
  simp only
  by_cases hc : 0 < conflictingInheritanceObjects scanId t
  · rw [if_pos hc]
    exact h
  · rw [if_neg hc]
    exact h.fill

/-- The pass is refused, with nothing changed, or it fills the scan. -/
theorem propagateInheritedHashes_error {e : String} {t' : FileTable}
    (hrun : propagateInheritedHashes scanId t = (.error e, t')) :
    0 < conflictingDigestObjects scanId t ∧ t' = t := by
  unfold propagateInheritedHashes Tx.atomically at hrun
  simp only at hrun
  by_cases hc : 0 < conflictingDigestObjects scanId t
  · rw [if_pos hc] at hrun
    cases hrun
    exact ⟨hc, rfl⟩
  · rw [if_neg hc] at hrun
    cases hrun

theorem propagateInheritedHashes_ok {n : Nat} {t' : FileTable}
    (hrun : propagateInheritedHashes scanId t = (.ok n, t')) :
    conflictingDigestObjects scanId t = 0 ∧ t' = (propagateTrustedDigests scanId t).2 := by
  unfold propagateInheritedHashes Tx.atomically at hrun
  simp only at hrun
  by_cases hc : 0 < conflictingDigestObjects scanId t
  · rw [if_pos hc] at hrun
    cases hrun
  · rw [if_neg hc] at hrun
    cases hrun
    exact ⟨Nat.eq_zero_of_not_pos hc, rfl⟩

theorem propagateInheritedHashes_session (h : Session scanId cands t) {n : Nat} {t' : FileTable}
    (hrun : propagateInheritedHashes scanId t = (.ok n, t')) :
    Session scanId cands t' ∧ Settled scanId t' := by
  obtain ⟨-, rfl⟩ := propagateInheritedHashes_ok hrun
  exact ⟨h.fill, propagateTrustedDigests_settled⟩

/-- The checkpoints of a session, one after the other. -/
def checkpoints (scanId : Int) (batches : List (List (ManifestRow × Bytes))) (t : FileTable) :
    FileTable :=
  batches.foldl (fun t rows => (recordHashesVerified scanId rows t).2) t

theorem checkpoints_advance {batches : List (List (ManifestRow × Bytes))} :
    ∀ {t : FileTable}, Session scanId cands t → Settled scanId t →
      (∀ rows ∈ batches, ∀ row ∈ rows, row.1 ∈ cands) →
      Session scanId cands (checkpoints scanId batches t) ∧
        Settled scanId (checkpoints scanId batches t) ∧
        ∃ files bytes, Advance scanId t (checkpoints scanId batches t) files bytes := by
  induction batches with
  | nil => exact fun {t} h hsettled _ => ⟨h, hsettled, 0, 0, Advance.refl scanId t⟩
  | cons rows batches ih =>
    intro t h hsettled hrows
    obtain ⟨persisted, t', bytes, hrun, hsession, hsettled', hadvance, -⟩ :=
      checkpoint_advance h hsettled (hrows rows List.mem_cons_self)
    have hstep : checkpoints scanId (rows :: batches) t = checkpoints scanId batches t' := by
      unfold checkpoints
      rw [List.foldl_cons, hrun]
    rw [hstep]
    obtain ⟨hsession', hsettled'', files, more, hadvance'⟩ :=
      ih hsession hsettled' fun rows' h' => hrows rows' (List.mem_cons_of_mem rows h')
    exact ⟨hsession', hsettled'', _, _, hadvance.trans hadvance'⟩

/-- Totals that are answered stay answered. -/
theorem Advance.stats {t' : FileTable} {files bytes : Nat} (h : Advance scanId t t' files bytes)
    (hstored : Stored (scanFiles scanId t)) (hstored' : Stored (scanFiles scanId t'))
    {c : CandidateStats} (hstats : candidateStats scanId t = .ok c) :
    candidateStats scanId t' =
        .ok ⟨c.totalFiles, c.totalBytes, c.hashedFiles + files, c.hashedBytes + bytes⟩ ∧
      c.hashedFiles + files ≤ c.totalFiles ∧ c.hashedBytes + bytes ≤ c.totalBytes ∧
      c.totalFiles < 2 ^ 63 ∧ c.totalBytes < 2 ^ 63 := by
  obtain ⟨hfiles, hbytes, rfl⟩ := (candidateStats_ok hstored).1 hstats
  have hfilesLe := statsOf_hashedFiles_le (scanFiles scanId t')
  have hbytesLe := statsOf_hashedBytes_le (scanFiles scanId t')
  rw [h.hashedFiles, h.totalFiles] at hfilesLe
  rw [h.hashedBytes, h.totalBytes] at hbytesLe
  refine ⟨(candidateStats_ok hstored').2 ⟨by rw [h.totalFiles]; exact hfiles,
    by rw [h.totalBytes]; exact hbytes, ?_⟩, hfilesLe, hbytesLe, hfiles, hbytes⟩
  rw [← h.totalFiles, ← h.totalBytes, ← h.hashedFiles, ← h.hashedBytes]

end Steps

/-! ## Exactness -/

/-- **What a checkpoint persists is what it changes of the totals**, in every state that an
    inheritance, the pass behind it and any checkpoints of candidates reach. -/
theorem checkpoint_progress {scanId : Int} {t t₂ : FileTable}
    (hkeyed : t.Pairwise fun a b => ¬(a.1 = b.1 ∧ Value.same a.2.path b.2.path = true))
    (hstored : Stored (scanFiles scanId t))
    (hversions : ∀ r ∈ t, r.1 = scanId → r.2.hash ≠ .null → r.2.identityVersion = 1)
    {n : Nat} (hpass : propagateInheritedHashes scanId (inheritHashes scanId t).2 = (.ok n, t₂))
    {cands : List ManifestRow} (hcands : candidateObjects scanId t₂ = .ok cands)
    {start : CandidateStats} (hstart : candidateStats scanId t₂ = .ok start)
    (batches : List (List (ManifestRow × Bytes))) (rows : List (ManifestRow × Bytes))
    (hrows : ∀ batch ∈ rows :: batches, ∀ row ∈ batch, row.1 ∈ cands) :
    ∃ persisted s' c, recordHashesVerified scanId rows (checkpoints scanId batches t₂) =
        (.ok persisted, s') ∧
      candidateStats scanId (checkpoints scanId batches t₂) = .ok c ∧
      candidateStats scanId s' = .ok ⟨start.totalFiles, start.totalBytes,
        c.hashedFiles + persisted.files, c.hashedBytes + persisted.bytes⟩ ∧
      c.hashedFiles + persisted.files ≤ start.totalFiles ∧
      c.hashedBytes + persisted.bytes ≤ start.totalBytes ∧
      persisted.representatives ≤ rows.length := by
  have hmanifest : Session scanId [] t :=
    ⟨hkeyed, hstored, hversions, fun c hc => (by cases hc), fun c hc => (by cases hc)⟩
  obtain ⟨hpassed, hsettled⟩ := propagateInheritedHashes_session (inheritHashes_session hmanifest) hpass
  obtain ⟨hsession, hsettled', files, bytes, hadvance⟩ := checkpoints_advance (hpassed.choose hcands)
    hsettled fun batch hbatch => hrows batch (List.mem_cons_of_mem rows hbatch)
  obtain ⟨hc, -⟩ := hadvance.stats hpassed.stored hsession.stored hstart
  obtain ⟨persisted, s', b, hrun, hsession', -, hadvance', hbytes, hreps⟩ :=
    checkpoint_advance hsession hsettled' (hrows rows List.mem_cons_self)
  obtain ⟨hc', hfilesLe, hbytesLe, -, hlt⟩ := hadvance'.stats hsession.stored hsession'.stored hc
  simp only at hbytesLe hlt
  have hexact : persisted.bytes = b := by
    rw [hbytes]
    exact Nat.mod_eq_of_lt (by omega)
  rw [← hexact] at hc' hbytesLe
  exact ⟨persisted, s', _, hrun, hc, hc', hfilesLe, hbytesLe, hreps⟩

/-- Two files of one size that nothing is known of. -/
def unhashedPair : FileTable :=
  [(1, { sampleFile 97 with hash := .null }), (1, { sampleFile 98 with hash := .null })]

/-- The candidate that stands for one of them. -/
def pairCandidate (letter : Byte) : ManifestRow := ⟨[47, letter], 5, 1, 0, 1, 0, 1, letter.val, 1⟩

/-- Three pathnames of two objects of one size. -/
def aliasedTrio : FileTable :=
  [(1, { sampleFile 97 with hash := .null, nlink := .integer 2 }),
    (1, { sampleFile 98 with hash := .null }),
    (1, { sampleFile 99 with hash := .null, inode := 97, nlink := .integer 2 })]

/-- `/a` stands for itself and for `/c`. -/
def trioCandidates : List ManifestRow := [{ pairCandidate 97 with nlink := 2 }, pairCandidate 98]

theorem aliasedTrio_keyed :
    aliasedTrio.Pairwise fun a b => ¬(a.1 = b.1 ∧ Value.same a.2.path b.2.path = true) := by
  decide

theorem aliasedTrio_stored : Stored (scanFiles 1 aliasedTrio) := by
  have hall : ∀ f ∈ scanFiles 1 aliasedTrio, f.size = .integer 5 ∧ f.device = 1 ∧
      (f.inode = 97 ∨ f.inode = 98) := by
    unfold aliasedTrio
    simp [scanFiles, sampleFile]
  intro f hf
  obtain ⟨hsize, hdevice, hinode | hinode⟩ := hall f hf
  all_goals
    rw [hsize, hdevice, hinode]
    exact ⟨⟨5, by decide, rfl⟩, by decide, by decide⟩

theorem aliasedTrio_versions :
    ∀ r ∈ aliasedTrio, r.1 = 1 → r.2.hash ≠ .null → r.2.identityVersion = 1 := by
  simp [aliasedTrio, sampleFile]

def sevens : Bytes := List.replicate 32 7

/-- The checkpoint of `/b` and behind it that of `/a`, whose digest reaches `/c` as well. -/
theorem checkpoint_progress_trio : ∃ persisted s',
    recordHashesVerified 1 [({ pairCandidate 97 with nlink := 2 }, sevens)]
        (checkpoints 1 [[(pairCandidate 98, sevens)]] aliasedTrio) = (.ok persisted, s') ∧
      persisted.files = 2 ∧ persisted.bytes = 5 ∧ candidateStats 1 s' = .ok ⟨3, 10, 3, 10⟩ := by
  obtain ⟨persisted, s', c, hrun, hc, hc', -⟩ :=
    @checkpoint_progress 1 aliasedTrio aliasedTrio aliasedTrio_keyed aliasedTrio_stored
      aliasedTrio_versions 0 (by rfl) trioCandidates (by rfl) ⟨3, 10, 0, 0⟩ (by rfl)
      [[(pairCandidate 98, sevens)]] [({ pairCandidate 97 with nlink := 2 }, sevens)]
      fun batch hbatch row hrow => by
        rcases List.mem_cons.1 hbatch with rfl | hbatch
        · rw [List.mem_singleton.1 hrow]
          exact List.mem_cons_self
        · rw [List.mem_singleton.1 hbatch] at hrow
          rw [List.mem_singleton.1 hrow]
          exact List.mem_cons_of_mem _ List.mem_cons_self
  have hearlier : candidateStats 1 (checkpoints 1 [[(pairCandidate 98, sevens)]] aliasedTrio) =
      .ok ⟨3, 10, 1, 5⟩ := by rfl
  have hsame := hearlier.symm.trans hc
  cases hsame
  have hpersisted : (recordHashesVerified 1 [({ pairCandidate 97 with nlink := 2 }, sevens)]
      (checkpoints 1 [[(pairCandidate 98, sevens)]] aliasedTrio)).1 = .ok ⟨2, 5, 1⟩ := by rfl
  rw [hrun] at hpersisted
  cases hpersisted
  exact ⟨_, s', hrun, rfl, rfl, hc'⟩

/-! ## The phase -/

section Phase

variable {scanId : Int} {cands : List ManifestRow} {t : FileTable}

/-- A read is handed over, stopped, or neither. -/
theorem stopped_add_verified_le (chunk : List (ManifestRow × HashOutcome)) :
    (chunk.countP fun c => c.2.isStopped) +
      (chunk.filterMap fun c => verifiedDigest c.1 c.2).length ≤ chunk.length := by
  induction chunk with
  | nil => exact le_rfl
  | cons c chunk ih =>
    obtain ⟨row, outcome⟩ := c
    rw [List.countP_cons, List.length_cons]
    cases outcome with
    | whole digest opened =>
      have hwhole : (HashOutcome.whole digest opened).isStopped = false := rfl
      simp only [hwhole, Bool.false_eq_true, if_false, List.filterMap_cons]
      split
      · omega
      · rw [List.length_cons]
        omega
    | stopped =>
      have hnone : verifiedDigest row .stopped = none := rfl
      have hstopped : HashOutcome.stopped.isStopped = true := rfl
      simp only [List.filterMap_cons, hnone, hstopped, if_true]
      omega
    | failed =>
      have hnone : verifiedDigest row .failed = none := rfl
      have hfailed : HashOutcome.failed.isStopped = false := rfl
      simp only [List.filterMap_cons, hnone, hfailed, Bool.false_eq_true, if_false]
      omega

theorem verifiedDigest_fst {row : ManifestRow} {outcome : HashOutcome} {r : ManifestRow × Bytes}
    (h : verifiedDigest row outcome = some r) : r.1 = row := by
  cases outcome with
  | whole digest opened =>
    unfold verifiedDigest at h
    simp only at h
    split at h
    · cases h
      rfl
    · cases h
  | stopped => cases h
  | failed => cases h

/-- The counters of the phase are the counts that the database would answer. -/
def InStep (scanId : Int) (start : CandidateStats) (p : HashProgress) (t : FileTable) : Prop :=
  candidateStats scanId t = .ok ⟨start.totalFiles, start.totalBytes, p.filesDone, p.bytesDone⟩

/-- **One chunk** keeps the counters in step, and its failures are reads of its own. -/
theorem hashBatch_progress {start : CandidateStats} {p : HashProgress}
    {chunk : List (ManifestRow × HashOutcome)} (h : Session scanId cands t)
    (hsettled : Settled scanId t) (hstep : InStep scanId start p t)
    (hrows : ∀ c ∈ chunk, c.1 ∈ cands) (hfailures : p.hashFailures ≤ p.objectsRead)
    (hread : p.objectsRead + chunk.length < 2 ^ 64) :
    ∃ p' t', hashBatch scanId chunk p t = (.ok p', t') ∧ Session scanId cands t' ∧
      Settled scanId t' ∧ InStep scanId start p' t' ∧ p.filesDone ≤ p'.filesDone ∧
      p.bytesDone ≤ p'.bytesDone ∧ p'.hashFailures ≤ p'.objectsRead ∧
      p'.objectsRead = p.objectsRead + chunk.length := by
  obtain ⟨persisted, t', b, hrun, hsession, hsettled', hadvance, hbytes, hreps⟩ :=
    @checkpoint_advance scanId cands t (chunk.filterMap fun c => verifiedDigest c.1 c.2) h hsettled
      fun row hrow => by
        obtain ⟨c, hc, hv⟩ := List.mem_filterMap.1 hrow
        rw [verifiedDigest_fst hv]
        exact hrows c hc
  obtain ⟨hstats, hfilesLe, hbytesLe, hfilesLt, hbytesLt⟩ :=
    hadvance.stats h.stored hsession.stored hstep
  simp only at hstats hfilesLe hbytesLe hfilesLt hbytesLt
  have hexact : persisted.bytes = b := by
    rw [hbytes]
    exact Nat.mod_eq_of_lt (by omega)
  have hcount := stopped_add_verified_le chunk
  refine ⟨p.after chunk.length (chunk.countP fun c => c.2.isStopped) persisted, t', ?_, hsession,
    hsettled', ?_, ?_, ?_, ?_, rfl⟩
  · unfold hashBatch
    simp only
    rw [hrun]
  · unfold InStep HashProgress.after
    simp only
    rw [Nat.mod_eq_of_lt (by omega), Nat.mod_eq_of_lt (by omega), hexact]
    exact hstats
  · show p.filesDone ≤ (p.filesDone + persisted.files) % 2 ^ 64
    rw [Nat.mod_eq_of_lt (by omega)]
    omega
  · show p.bytesDone ≤ (p.bytesDone + persisted.bytes) % 2 ^ 64
    rw [Nat.mod_eq_of_lt (by omega)]
    omega
  · show (p.hashFailures + (2 ^ 64 + chunk.length - (chunk.countP fun c => c.2.isStopped) -
      persisted.representatives) % 2 ^ 64) % 2 ^ 64 ≤ p.objectsRead + chunk.length
    omega

/-- **The chunks one after the other**, to the end or to a stop. -/
theorem hashBatches_progress {start : CandidateStats} {outcome : ManifestRow → HashOutcome}
    {stop : Nat → Bool} {chunks : List (List ManifestRow)}
    (hrows : ∀ chunk ∈ chunks, ∀ row ∈ chunk, row ∈ cands) {batch : Nat} {p : HashProgress}
    (h : Session scanId cands t) (hsettled : Settled scanId t) (hstep : InStep scanId start p t)
    (hfailures : p.hashFailures ≤ p.objectsRead)
    (hread : p.objectsRead + chunks.flatten.length < 2 ^ 64) :
    ∃ complete p' t', hashBatches scanId outcome stop batch chunks p t = (.ok (complete, p'), t') ∧
      Session scanId cands t' ∧ InStep scanId start p' t' ∧ p.filesDone ≤ p'.filesDone ∧
      p.bytesDone ≤ p'.bytesDone ∧ p'.hashFailures ≤ p'.objectsRead ∧
      p'.objectsRead ≤ p.objectsRead + chunks.flatten.length ∧
      (complete = true → p'.objectsRead = p.objectsRead + chunks.flatten.length) := by
  induction chunks generalizing batch p t with
  | nil =>
    exact ⟨true, p, t, rfl, h, hstep, le_rfl, le_rfl, hfailures, Nat.le_add_right _ _, fun _ => rfl⟩
  | cons chunk chunks ih =>
    rw [List.flatten_cons, List.length_append] at hread ⊢
    unfold hashBatches
    cases hbefore : stop (2 * batch) with
    | true =>
      rw [if_pos rfl]
      exact ⟨false, p, t, rfl, h, hstep, le_rfl, le_rfl, hfailures, by omega,
        fun h => (by cases h)⟩
    | false =>
      rw [if_neg Bool.false_ne_true]
      obtain ⟨p₁, t₁, hrun, hsession, hsettled', hstep', hfiles, hbytes, hfailures', hread'⟩ :=
        @hashBatch_progress scanId cands t start p (chunk.map fun row => (row, outcome row)) h hsettled hstep
          (fun c hc => by
            obtain ⟨row, hrow, rfl⟩ := List.mem_map.1 hc
            exact hrows chunk List.mem_cons_self row hrow)
          hfailures (by rw [List.length_map]; omega)
      rw [List.length_map] at hread'
      rw [hrun]
      simp only
      cases hbehind : stop (2 * batch + 1) with
      | true =>
        rw [if_pos rfl]
        exact ⟨false, p₁, t₁, rfl, hsession, hstep', hfiles, hbytes, hfailures', by omega,
          fun h => (by cases h)⟩
      | false =>
        rw [if_neg Bool.false_ne_true]
        obtain ⟨complete, p', t', hrest, hsession', hstep'', hfiles', hbytes', hfailures'', hle,
          hall⟩ := ih (fun chunk' h' => hrows chunk' (List.mem_cons_of_mem chunk h'))
            hsession hsettled' hstep' hfailures' (by omega)
        refine ⟨complete, p', t', hrest, hsession', hstep'', hfiles.trans hfiles',
          hbytes.trans hbytes', hfailures'', by omega, fun hc => ?_⟩
        rw [hall hc, hread']
        omega

/-- There are no more candidates than files that count. -/
theorem length_candidates_le (hstored : Stored (scanFiles scanId t))
    (hcands : candidateObjects scanId t = .ok cands) :
    cands.length ≤ (statsOf (scanFiles scanId t)).totalFiles := by
  rw [(candidateObjects_ok hstored hcands).1]
  have hsub : Grouping.keysOf FileRow.objectKey (unhashedEligible (scanFiles scanId t)) ⊆
      eligibleKeys (scanFiles scanId t) := fun k hk => by
    obtain ⟨f, hf, rfl⟩ := Grouping.mem_keysOf.1 hk
    obtain ⟨hfile, -, heligible⟩ := mem_unhashedEligible.1 hf
    exact (mem_eligibleKeys hfile).2 heligible
  refine ((Grouping.nodup_keysOf _ _).subperm hsub).length_le.trans ?_
  unfold statsOf
  simp only
  refine (List.length_map _).symm.trans_le (List.length_le_sum_of_one_le _ fun n hn => ?_)
  obtain ⟨k, hk, rfl⟩ := List.mem_map.1 hn
  exact List.length_pos_iff.2 (objectAt_ne_nil (List.mem_filter.1 hk).1)

/-- The chunks of the candidates in inode order, from the first one on. -/
theorem sortedBatches_progress {start : CandidateStats} (outcome : ManifestRow → HashOutcome)
    (stop : Nat → Bool) (h : Session scanId [] t) (hsettled : Settled scanId t)
    (hcands : candidateObjects scanId t = .ok cands) (hstart : candidateStats scanId t = .ok start) :
    ∃ complete p t', hashBatches scanId outcome stop 0
          (Chunks.chunks (hashChunk - 1)
            (Sql.orderBy (fun row : ManifestRow => toLex (row.device, row.inode)) cands))
          ⟨start.hashedFiles, start.hashedBytes, 0, 0⟩ t = (.ok (complete, p), t') ∧
      Session scanId cands t' ∧ InStep scanId start p t' ∧ start.hashedFiles ≤ p.filesDone ∧
      start.hashedBytes ≤ p.bytesDone ∧ p.hashFailures ≤ p.objectsRead ∧
      p.objectsRead ≤ cands.length ∧ (complete = true → p.objectsRead = cands.length) := by
  have hlen := length_candidates_le h.stored hcands
  obtain ⟨hfilesLt, -⟩ := (candidateStats_ok h.stored).1 hstart
  generalize hsorted : Sql.orderBy (fun row : ManifestRow => toLex (row.device, row.inode)) cands =
    sorted
  have hperm : sorted.Perm cands := hsorted ▸ Sql.orderBy_perm _ cands
  have hflatten : (Chunks.chunks (hashChunk - 1) sorted).flatten = sorted :=
    Chunks.flatten_chunks (hashChunk - 1) sorted
  obtain ⟨complete, p, t', hrun, hsession, hstep, hfiles, hbytes, hfailures, hread, hall⟩ :=
    @hashBatches_progress scanId cands t start outcome stop (Chunks.chunks (hashChunk - 1) sorted)
      (fun chunk hchunk row hrow => hperm.mem_iff.1 (by
        rw [← hflatten]
        exact List.mem_flatten.2 ⟨chunk, hchunk, hrow⟩))
      0 ⟨start.hashedFiles, start.hashedBytes, 0, 0⟩ (h.choose hcands) hsettled hstart
      le_rfl (by
        rw [hflatten, hperm.length_eq]
        simp only
        omega)
  rw [hflatten, hperm.length_eq, Nat.zero_add] at hread hall
  exact ⟨complete, p, t', hrun, hsession, hstep, hfiles, hbytes, hfailures, hread, hall⟩

end Phase

/-- The totals of a manifest fit a figure of the database. -/
def Fits (files : List FileRow) : Prop :=
  (statsOf files).totalFiles < 2 ^ 63 ∧ (statsOf files).totalBytes < 2 ^ 63

/-- How the phase over a table ends: refused in front of its first chunk, for a reason that no read
    and no stop has a part in, or with counters that are the database's. -/
inductive PhaseEnds (scanId : Int) (t : FileTable) :
    Except String (CandidateStats × Bool × HashProgress) × FileTable → Prop where
  /-- objects of the scan carry two trusted digests -/
  | conflict (e : String) (htwo : 0 < conflictingDigestObjects scanId t) :
      PhaseEnds scanId t (.error e, t)
  | overflow (e : String) (hone : conflictingDigestObjects scanId t = 0)
      (hfits : ¬Fits (scanFiles scanId t)) :
      PhaseEnds scanId t (.error e, (propagateTrustedDigests scanId t).2)
  /-- a cell of a candidate does not read as its column -/
  | unlisted (e : AppError) (hone : conflictingDigestObjects scanId t = 0)
      (hcands : candidateObjects scanId (propagateTrustedDigests scanId t).2 = .error e) :
      PhaseEnds scanId t (.error e.message, (propagateTrustedDigests scanId t).2)
  | ended (hone : conflictingDigestObjects scanId t = 0) (hfits : Fits (scanFiles scanId t))
      (cands : List ManifestRow) (start : CandidateStats) (complete : Bool) (p : HashProgress)
      (t' : FileTable)
      (hcands : candidateObjects scanId (propagateTrustedDigests scanId t).2 = .ok cands)
      (hstart : candidateStats scanId (propagateTrustedDigests scanId t).2 = .ok start)
      (hcounts : InStep scanId start p t')
      (hfiles : start.hashedFiles ≤ p.filesDone ∧ p.filesDone ≤ start.totalFiles)
      (hbytes : start.hashedBytes ≤ p.bytesDone ∧ p.bytesDone ≤ start.totalBytes)
      (hfailures : p.hashFailures ≤ p.objectsRead) (hread : p.objectsRead ≤ cands.length)
      (hall : complete = true → p.objectsRead = cands.length) :
      PhaseEnds scanId t (.ok (start, complete, p), t')

theorem fits_propagated (scanId : Int) (t : FileTable) :
    Fits (scanFiles scanId (propagateTrustedDigests scanId t).2) ↔ Fits (scanFiles scanId t) := by
  show Fits (scanFiles scanId (fillRows (propagates scanId (fun _ => true) t) (sourceDigest t) t)) ↔ _
  unfold Fits
  rw [scanFiles_fillRows, totals_fill.1, totals_fill.2]

/-- **The counters of the phase are the database's**, over any stored manifest, whatever the reads
    come to and wherever it is stopped: they never pass the totals, no more failures are counted
    than candidates read, and it is refused only in front of its first chunk. -/
theorem hash_phase_progress {scanId : Int} {t : FileTable}
    (hkeyed : t.Pairwise fun a b => ¬(a.1 = b.1 ∧ Value.same a.2.path b.2.path = true))
    (hstored : Stored (scanFiles scanId t))
    (hversions : ∀ r ∈ t, r.1 = scanId → r.2.hash ≠ .null → r.2.identityVersion = 1)
    (outcome : ManifestRow → HashOutcome) (stop : Nat → Bool) :
    PhaseEnds scanId t (hashPhase scanId outcome stop t) := by
  have hmanifest : Session scanId [] t :=
    ⟨hkeyed, hstored, hversions, fun c hc => (by cases hc), fun c hc => (by cases hc)⟩
  unfold hashPhase
  cases hpass : propagateInheritedHashes scanId t with
  | mk answer t₂ =>
    cases answer with
    | error e =>
      obtain ⟨htwo, rfl⟩ := propagateInheritedHashes_error hpass
      exact .conflict e htwo
    | ok n =>
      obtain ⟨hone, htable⟩ := propagateInheritedHashes_ok hpass
      obtain ⟨hpassed, hsettled⟩ := propagateInheritedHashes_session hmanifest hpass
      have hfits := fits_propagated scanId t
      rw [← htable] at hfits
      simp only
      cases hstart : candidateStats scanId t₂ with
      | error e =>
        rw [htable]
        refine .overflow e hone fun h => ?_
        obtain ⟨hfiles, hbytes⟩ := hfits.2 h
        rw [(candidateStats_ok hpassed.stored).2 ⟨hfiles, hbytes, rfl⟩] at hstart
        cases hstart
      | ok start =>
        simp only
        cases hcands : candidateObjects scanId t₂ with
        | error e =>
          rw [htable] at hcands ⊢
          exact .unlisted e hone hcands
        | ok cands =>
          obtain ⟨hfilesLt, hbytesLt, -⟩ := (candidateStats_ok hpassed.stored).1 hstart
          obtain ⟨complete, p, t', hrun, hsession, hstep, hfiles, hbytes, hfailures, hread, hall⟩ :=
            sortedBatches_progress outcome stop hpassed hsettled hcands hstart
          obtain ⟨-, hfilesLe, hbytesLe, -⟩ := (Advance.refl scanId t').stats hsession.stored
            hsession.stored hstep
          simp only
          rw [hrun]
          rw [htable] at hcands hstart
          exact .ended hone (hfits.1 ⟨hfilesLt, hbytesLt⟩) cands start complete p t' hcands hstart
            hstep ⟨hfiles, hfilesLe⟩ ⟨hbytes, hbytesLe⟩ hfailures hread hall

/-- `/a` is read to its end, and a stop meets the read of `/b`. -/
def trioReads (row : ManifestRow) : HashOutcome :=
  if row.path = [47, 97] then .whole sevens ⟨1, 97, 5, ⟨1, 0⟩, ⟨1, 0⟩, .regular, 0⟩ else .stopped

/-- The stop is seen behind the chunk: one object is committed, with both of its pathnames. -/
theorem hash_phase_progress_trio :
    PhaseEnds 1 aliasedTrio (hashPhase 1 trioReads (fun k => decide (k = 1)) aliasedTrio) ∧
      (hashPhase 1 trioReads (fun k => decide (k = 1)) aliasedTrio).1 =
        .ok (⟨3, 10, 0, 0⟩, false, ⟨2, 5, 2, 0⟩) :=
  ⟨hash_phase_progress aliasedTrio_keyed aliasedTrio_stored aliasedTrio_versions trioReads
    fun k => decide (k = 1), by rfl⟩

end DedupCommando
