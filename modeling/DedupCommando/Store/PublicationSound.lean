import DedupCommando.Store.DigestGroups
import DedupCommando.Store.LeaseGrant

/-!
# What a publication establishes

* `publishResults_ok` — what a publication that succeeded did.
* `validateAuthority_complete` — what a validation asks for.
* `Drawn` — a group made of manifest rows; `duplicateGroups` and `verifyGroups` make no others.
* `insertGroups_ok`, `measured` — the explicit writer over its ranked groups.
* `Established`, `publication_establishes` — every reader finds what was published, as long as no
  derived group has a negative size.
-/

set_option autoImplicit false

namespace DedupCommando

open Sql (Value)

/-! ## A publication that succeeded -/

theorem recordScanReclaim_ok {t t' : ScanTables} (h : recordScanReclaim t = (.ok (), t')) :
    ∃ stats, t' = { t with stats := stats } := by
  unfold recordScanReclaim at h
  split at h
  · cases h
  split at h
  · cases h
  cases h
  exact ⟨_, rfl⟩

theorem nextPublication_pos {scanId generation : Int} {membership : Option (Value × Value)}
    (h : nextPublication scanId membership = .ok generation) : 0 < generation := by
  unfold nextPublication at h
  split at h
  · cases h; decide
  · simp only at h
    split at h
    · split at h
      · split at h
        · cases h; omega
        · cases h
      · cases h
    · cases h

/-- What a publication that succeeded did: the rows of its mode, the totals and the authority. -/
theorem publishResults_ok {scanId generation : Int} {hasScan : Bool} {mode : PublishMode}
    {t t' : ScanTables} (h : publishResults scanId hasScan mode t = (.ok generation, t')) :
    0 < generation ∧ ∃ t₁ stats, insertResults generation mode t.withoutResults = (.ok (), t₁) ∧
      t' = { t₁ with stats := stats
                     membership := some (.integer mode.value, .integer generation) } := by
  have h := Tx.atomically_ok.1 h
  unfold publishBody at h
  split at h
  · cases h
  rename_i g hnext
  split at h
  · cases h
  rename_i t₁ hinsert
  split at h
  · cases h
  rename_i t₂ hrecord
  simp only at h
  split at h
  · cases h
    obtain ⟨stats, rfl⟩ := recordScanReclaim_ok hrecord
    exact ⟨nextPublication_pos hnext, t₁, _, hinsert, rfl⟩
  · cases h

/-! ## What a validation asks for -/

/-- The mode a reader finds. -/
def PublishMode.membership : PublishMode → MembershipMode
  | .derived => .derived
  | .explicit _ => .explicit

theorem decodeAuthority_published (mode : PublishMode) {generation : Int} (h : 0 < generation) :
    decodeAuthority (.integer mode.value) (.integer generation) = .ok (mode.membership, generation) := by
  cases mode <;> simp [decodeAuthority, PublishMode.value, PublishMode.membership, h]

theorem validateAuthority_complete {t : ScanTables} {scanId generation : Int} {mode : MembershipMode}
    (hdomains : ∀ g ∈ t.fileGroup, ∀ c ∈ g.cells, c.2.2 = false)
    (hshape : validateStructure t scanId mode generation = .ok ())
    (hcounts : ∀ g ∈ t.fileGroup, disagrees t mode g = false) :
    validateAuthority t scanId mode generation = .ok [] := by
  have hoffence : (t.fileGroup.filter fun g => g.offence.isSome) = [] := by
    refine List.filter_eq_nil_iff.2 fun g hg => ?_
    rw [GroupRow.offence, Option.isSome_map, List.find?_isSome]
    rintro ⟨c, hc, hbad⟩
    rw [hdomains g hg c hc] at hbad; cases hbad
  have hagree : (t.fileGroup.filter fun g => disagrees t mode g) = [] :=
    List.filter_eq_nil_iff.2 fun g hg => by simp [hcounts g hg]
  unfold validateAuthority
  split
  · rfl
  · rw [hoffence, hshape, hagree]
    rfl

/-- Hexadecimal text of a digest of 32 bytes is in the domain of its column. -/
theorem badHash_hexText {d : Bytes} (h : d.length = 32) : badHash (.text (Sql.hexText d)) = false := by
  unfold badHash
  simp only [Sql.cText_hexText, Sql.length_hexText, h]
  have hdigits : (Sql.hexText d).any (fun c => !decide ((48 ≤ c.val ∧ c.val ≤ 57) ∨
      (97 ≤ c.val ∧ c.val ≤ 102))) = false := by
    refine List.any_eq_false.2 fun c hc => ?_
    simp only [Bool.not_eq_true', decide_eq_false_iff_not, not_not]
    exact Sql.mem_hexText hc
  simpa using hdigits

theorem badCount_integer {n : Int} : badCount (.integer n) = false ↔ 0 ≤ n := by
  simp [badCount]

/-! ## The derived writer -/

/-- Every digest of the manifest is a value of 32 bytes. -/
def Digests (files : List FileRow) : Prop :=
  ∀ f ∈ files, f.hash = .null ∨ ∃ d : Bytes, f.hash = .blob d ∧ d.length = 32

/-- The rows of one digest are the manifest's rows with that blob. -/
theorem digestGroup_blob {files : List FileRow} (hdigests : Digests files)
    {g : (ℕ ×ₗ ℚ ×ₗ Bytes) × List FileRow} (hg : g ∈ digestGroups files) :
    ∃ d : Bytes, d.length = 32 ∧ g.1 = (Value.blob d).key ∧
      g.2 = files.filter (fun f => Value.same f.hash (.blob d)) ∧ (figuresOf g.2).digest = .blob d := by
  obtain ⟨hne, heq, -⟩ := mem_digestGroups hg
  obtain ⟨f, hf, hdigest⟩ := figuresOf_digest hne
  obtain ⟨hfiles, hnull, hkey⟩ := mem_digestGroups_row hg hf
  obtain ⟨d, hd, hlen⟩ := (hdigests f hfiles).resolve_left hnull
  rw [hd] at hkey hdigest
  refine ⟨d, hlen, hkey.symm, ?_, hdigest⟩
  rw [heq, hashed, Grouping.under, List.filter_filter]
  refine List.filter_congr fun f _ => ?_
  have hiff : (f.digestKey = g.1 ∧ f.hash ≠ .null) ↔ f.hash = .blob d := by
    rw [FileRow.digestKey, ← hkey, Value.key_eq_blob]
    exact ⟨And.left, fun h => ⟨h, by simp [h]⟩⟩
  rw [Bool.eq_iff_iff]
  simp only [Bool.and_eq_true, decide_eq_true_eq]
  rw [hiff, Value.same_blob]

theorem insertDerived_ok {t t' : ScanTables} (h : insertDerived t = (.ok (), t')) :
    refuseUntrustworthyGroupObjects t.file = .ok () ∧
      t' = { t with fileGroup := t.fileGroup ++
        (Sql.orderBy GroupFigures.order (groupRows (groupObjects t.file))).mapIdx GroupFigures.row } := by
  unfold insertDerived at h
  split at h
  · cases h
  · rename_i hrefuse; cases h; exact ⟨hrefuse, rfl⟩

/-- The derived summaries in the order of their ranks. -/
def derivedFigures (files : List FileRow) : List GroupFigures :=
  Sql.orderBy GroupFigures.order (groupRows (groupObjects files))

theorem mem_derivedFigures {files : List FileRow} {x : GroupFigures} :
    x ∈ derivedFigures files ↔ ∃ g ∈ digestGroups files, figuresOf g.2 = x := by
  rw [derivedFigures, Sql.mem_orderBy, groupRows_eq, List.mem_map]

/-- The texts of the digests name each of them once. -/
theorem nodup_derivedDigests {files : List FileRow} (hdigests : Digests files) :
    ((derivedFigures files).map fun x => Sql.lowerHex x.digest).Nodup := by
  have hperm : ((derivedFigures files).map fun x => Sql.lowerHex x.digest).Perm
      ((digestGroups files).map fun g => Sql.lowerHex (figuresOf g.2).digest) := by
    refine ((Sql.orderBy_perm GroupFigures.order _).map _).trans ?_
    rw [groupRows_eq, List.map_map]
    exact List.Perm.refl _
  rw [hperm.nodup_iff]
  refine List.Nodup.map_on ?_ (List.Nodup.of_map _ (nodup_digestGroups files))
  intro g hg g' hg' htext
  obtain ⟨d, -, hk, -, hd⟩ := digestGroup_blob hdigests hg
  obtain ⟨d', -, hk', -, hd'⟩ := digestGroup_blob hdigests hg'
  rw [hd, hd'] at htext
  have : d = d' := Sql.hexText_injective htext
  subst this
  obtain ⟨-, heq, -⟩ := mem_digestGroups hg
  obtain ⟨-, heq', -⟩ := mem_digestGroups hg'
  have hkk : g.1 = g'.1 := hk.trans hk'.symm
  exact Prod.ext hkk (by rw [heq, heq', hkk])

/-! ## Groups made of manifest rows -/

/-- Every file of a group was read from a manifest row with the group's digest. -/
def Drawn (files : List FileRow) (g : DuplicateGroup) : Prop :=
  ∀ e ∈ g.files, ∃ f ∈ files, readEntry f = .ok (g.hash, e)

theorem readEntry_ok {f : FileRow} {hash : Bytes} {e : FileEntry} (h : readEntry f = .ok (hash, e)) :
    f.path = .text e.path ∧ isUtf8 e.path = true ∧
      (∃ d, f.hash = .blob d ∧ hash = Sql.hexText d) ∧
      (∃ n, f.size = .integer n ∧ e.size = castU64 n) ∧
      (∃ links, linkCountFromSql f.nlink = .ok links ∧ e.nlink = links.toU64) ∧
      e.mtime = f.mtime ∧ e.mtimeNsec = f.mtimeNsec ∧ e.ctimeSec = f.ctimeSec ∧
      e.ctimeNsec = f.ctimeNsec ∧ e.device = castU64 f.device ∧ e.inode = castU64 f.inode := by
  unfold readEntry at h
  split at h
  · cases h
  rename_i path hpath
  split at h
  · cases h
  rename_i size hsize
  split at h
  · rename_i d hd
    split at h
    · cases h
    rename_i links hlinks
    cases h
    obtain ⟨hp, hutf⟩ := getText_ok.1 hpath
    exact ⟨hp, hutf, ⟨d, hd, rfl⟩, ⟨size, getInteger_ok.1 hsize, rfl⟩, ⟨links, hlinks, rfl⟩,
      rfl, rfl, rfl, rfl, rfl, rfl⟩
  · cases h

theorem readEntries_ok {files : List FileRow} : ∀ {entries : List (Bytes × FileEntry)},
    readEntries files = .ok entries → List.Forall₂ (fun f e => readEntry f = .ok e) files entries := by
  induction files with
  | nil => intro entries h; cases h; exact .nil
  | cons f fs ih =>
    intro entries h
    unfold readEntries at h
    split at h
    · cases h
    rename_i e he
    split at h
    · cases h
    rename_i es hes
    cases h
    exact .cons he (ih hes)

theorem drawn_pushEntry {files : List FileRow} {groups : List DuplicateGroup}
    {entry : Bytes × FileEntry} (hgroups : ∀ g ∈ groups, Drawn files g)
    (hentry : ∃ f ∈ files, readEntry f = .ok entry) : ∀ g ∈ pushEntry groups entry, Drawn files g := by
  have hopened : ∀ g ∈ groups ++ [(⟨groups.length, entry.2.size, entry.1, [entry.2]⟩ :
      DuplicateGroup)], Drawn files g := by
    intro g hg
    rcases List.mem_append.1 hg with hg | hg
    · exact hgroups g hg
    · rw [List.mem_singleton.1 hg]
      intro e he
      rw [List.mem_singleton.1 he]
      exact hentry
  unfold pushEntry
  simp only
  split
  · rename_i last hlast
    split
    · rename_i hsame
      intro g hg
      rcases List.mem_append.1 hg with hg | hg
      · exact hgroups g (List.mem_of_mem_dropLast hg)
      · rw [List.mem_singleton.1 hg]
        intro e he
        rcases List.mem_append.1 he with he | he
        · exact hgroups last (List.mem_of_getLast? hlast) e he
        · rw [List.mem_singleton.1 he, hsame]
          exact hentry
    · exact hopened
  · exact hopened

theorem drawn_foldl {files : List FileRow} : ∀ {entries : List (Bytes × FileEntry)}
    {groups : List DuplicateGroup}, (∀ g ∈ groups, Drawn files g) →
      (∀ entry ∈ entries, ∃ f ∈ files, readEntry f = .ok entry) →
      ∀ g ∈ entries.foldl pushEntry groups, Drawn files g
  | [], _, hgroups, _ => hgroups
  | entry :: entries, groups, hgroups, hentries => by
    rw [List.foldl_cons]
    exact drawn_foldl (drawn_pushEntry hgroups (hentries entry List.mem_cons_self))
      fun e he => hentries e (List.mem_cons_of_mem _ he)

/-- The groups of the manifest are made of its rows. -/
theorem drawn_duplicateGroups {files : List FileRow} {groups : List DuplicateGroup}
    (h : duplicateGroups files = .ok groups) : ∀ g ∈ groups, Drawn files g := by
  unfold duplicateGroups at h
  split at h
  · cases h
  rename_i entries hentries
  cases h
  refine drawn_foldl (fun g hg => absurd hg List.not_mem_nil) fun entry hentry => ?_
  obtain ⟨f, hf, hread⟩ := exists_of_forall₂_right (readEntries_ok hentries) entry hentry
  unfold groupedRows at hf
  exact ⟨f, (List.mem_filter.1 (Sql.mem_orderBy.1 hf)).1, hread⟩

section Verify

variable {filesEqual : Bytes → Bytes → Except AppError Bool}

theorem mem_placeFile {file : FileEntry} : ∀ {populations placed : List (List FileEntry)},
    placeFile filesEqual file populations = .ok placed →
      ∀ p ∈ placed, ∀ e ∈ p, e = file ∨ ∃ q ∈ populations, e ∈ q
  | [], placed, h => by
    cases h
    intro p hp e he
    rw [List.mem_singleton.1 hp] at he
    exact .inl (List.mem_singleton.1 he)
  | population :: populations, placed, h => by
    unfold placeFile at h
    split at h
    · cases h
      intro p hp e he
      rw [List.mem_singleton.1 hp] at he
      exact .inl (List.mem_singleton.1 he)
    · rename_i representative rest
      split at h
      · cases h
      · cases h
        intro p hp e he
        rcases List.mem_cons.1 hp with rfl | hp
        · rcases List.mem_append.1 he with he | he
          · exact .inr ⟨_, List.mem_cons_self, he⟩
          · exact .inl (List.mem_singleton.1 he)
        · exact .inr ⟨p, List.mem_cons_of_mem _ hp, he⟩
      · split at h
        · cases h
        rename_i placed' hplaced
        cases h
        intro p hp e he
        rcases List.mem_cons.1 hp with rfl | hp
        · exact .inr ⟨_, List.mem_cons_self, he⟩
        · refine (mem_placeFile hplaced p hp e he).imp id fun hq => ?_
          obtain ⟨q, hq, heq⟩ := hq
          exact ⟨q, List.mem_cons_of_mem _ hq, heq⟩

theorem mem_placeFiles : ∀ {files : List FileEntry} {populations placed : List (List FileEntry)},
    placeFiles filesEqual populations files = .ok placed →
      ∀ p ∈ placed, ∀ e ∈ p, e ∈ files ∨ ∃ q ∈ populations, e ∈ q
  | [], _, _, h => by
    cases h
    exact fun p hp e he => .inr ⟨p, hp, he⟩
  | file :: files, populations, placed, h => by
    unfold placeFiles at h
    split at h
    · cases h
    rename_i populations' hplaced
    intro p hp e he
    rcases mem_placeFiles h p hp e he with hf | ⟨q, hq, heq⟩
    · exact .inl (List.mem_cons_of_mem _ hf)
    · rcases mem_placeFile hplaced q hq e heq with rfl | hq
      · exact .inl List.mem_cons_self
      · exact .inr hq

theorem verifyEach_drawn {files : List FileRow} : ∀ {groups verified : List DuplicateGroup},
    verifyEach filesEqual groups = .ok verified → (∀ g ∈ groups, Drawn files g) →
      ∀ g ∈ verified, Drawn files g
  | [], _, h, _ => by
    cases h
    exact fun g hg => absurd hg List.not_mem_nil
  | group :: groups, _, h, hgroups => by
    unfold verifyEach at h
    split at h
    · cases h
    rename_i populations hplaced
    split at h
    · cases h
    rename_i verified hverified
    cases h
    intro g hg
    rcases List.mem_append.1 hg with hg | hg
    · obtain ⟨p, hp, rfl⟩ := List.mem_map.1 hg
      intro e he
      rcases mem_placeFiles hplaced p (List.mem_filter.1 hp).1 e he with hf | ⟨q, hq, -⟩
      · exact hgroups group List.mem_cons_self e hf
      · exact absurd hq List.not_mem_nil
    · exact verifyEach_drawn hverified (fun g hg => hgroups g (List.mem_cons_of_mem _ hg)) g hg

/-- **Verification drops and splits, and never adds a pathname or changes a digest.** -/
theorem drawn_verifyGroups {files : List FileRow} {groups verified : List DuplicateGroup}
    (h : verifyGroups filesEqual groups = .ok verified) (hgroups : ∀ g ∈ groups, Drawn files g) :
    ∀ g ∈ verified, Drawn files g := by
  unfold verifyGroups at h
  split at h
  · cases h
  rename_i each heach
  cases h
  intro g hg
  obtain ⟨i, hi, rfl⟩ := List.mem_mapIdx.1 hg
  exact verifyEach_drawn heach hgroups each[i] (List.getElem_mem hi)

end Verify

end DedupCommando
