import DedupCommando.Store.LeaseExact

/-!
# The witness of a valid snapshot is granted

* `validateAuthority_ok` — what a validated authority promises of its rows.
* `Taken` — what a witnessed group was read from.
* `Snapshot.Lists`, `witnessOf_of_lists` — a valid snapshot answers for the groups it stores.
* `explicit_grants`, `derived_grants` — the two statements accept such a witness.
* `lease_exact` — a lease is granted only on the witnessed rows, and the witness of a valid
  snapshot is granted while those rows stand.
-/

set_option autoImplicit false

namespace DedupCommando

open Sql (Value)

/-! ## A validated authority -/

theorem getIntegers_ok {vs : List Value} : ∀ {ns : List Int}, getIntegers vs = .ok ns →
    ∀ v ∈ vs, ∃ n ∈ ns, v = .integer n := by
  induction vs with
  | nil => exact fun _ v hv => absurd hv List.not_mem_nil
  | cons v vs ih =>
    intro ns h
    unfold getIntegers at h
    split at h
    · cases h
    rename_i n hn
    split at h
    · cases h
    rename_i ns' hns
    cases h
    intro u hu
    rcases List.mem_cons.1 hu with rfl | hu
    · exact ⟨n, List.mem_cons_self, getInteger_ok.1 hn⟩
    · obtain ⟨k, hk, he⟩ := ih hns u hu
      exact ⟨k, List.mem_cons_of_mem _ hk, he⟩

/-- Every cell of a summary row is in its domain. -/
theorem offence_eq_none {g : GroupRow} (h : g.offence.isSome = false) :
    ∀ c ∈ g.cells, c.2.2 = false := by
  unfold GroupRow.offence at h
  rw [Option.isSome_map, Option.isSome_eq_false_iff, Option.isNone_iff_eq_none,
    List.find?_eq_none] at h
  intro c hc
  simpa using h c hc

theorem badCount_eq_false {v : Value} (h : badCount v = false) : ∃ n, v = .integer n ∧ 0 ≤ n := by
  unfold badCount at h
  split at h
  · rename_i n; exact ⟨n, rfl, by simpa using h⟩
  · cases h

/-- What validation leaves standing. -/
structure Validated (t : ScanTables) (scanId : Int) (mode : MembershipMode) (generation : Int)
    (ranks : List Int) : Prop where
  domains : ∀ g ∈ t.fileGroup, ∀ c ∈ g.cells, c.2.2 = false
  shape : validateStructure t scanId mode generation = .ok ()
  counts : ∀ g ∈ t.fileGroup, ∀ n, g.rank = .integer n → n ∉ ranks → disagrees t mode g = false

theorem validateAuthority_ok {t : ScanTables} {scanId : Int} {mode : MembershipMode}
    {generation : Int} {ranks : List Int} (hmode : mode ≠ .unknown)
    (h : validateAuthority t scanId mode generation = .ok ranks) :
    Validated t scanId mode generation ranks := by
  unfold validateAuthority at h
  rw [if_neg hmode] at h
  split at h
  · cases h
  rename_i hoffender
  split at h
  · cases h
  rename_i hshape
  split at h
  · cases h
  rename_i read hread
  cases h
  refine ⟨fun g hg => offence_eq_none ?_, hshape, fun g hg n hn hnot => ?_⟩
  · rw [List.head?_eq_none_iff] at hoffender
    have hnil := (Sql.orderBy_perm (fun g : GroupRow =>
      toLex (badCount g.rank, toLex (g.rank.key, g.rowid)))
      (t.fileGroup.filter fun g => g.offence.isSome)).symm
    rw [hoffender, List.perm_nil, List.filter_eq_nil_iff] at hnil
    simpa using hnil g hg
  · by_contra hd
    rw [Bool.not_eq_false] at hd
    obtain ⟨k, hk, he⟩ := getIntegers_ok hread g.rank
      (List.mem_map_of_mem (Sql.mem_orderBy.2 (List.mem_filter.2 ⟨hg, hd⟩)))
    rw [hn] at he
    cases he
    exact hnot (Grouping.mem_keysOf.2 ⟨n, hk, rfl⟩)

theorem membershipSnapshot_ok {db : Database} {scanId : Int} {s : Snapshot}
    (h : membershipSnapshot db scanId = .ok s) :
    s.tables = db.tables scanId ∧ s.scanId = scanId ∧
      (s.mode ≠ .unknown →
        Validated s.tables s.scanId s.mode s.generation s.inconsistentRanks) := by
  unfold membershipSnapshot at h
  split at h
  · simp only at h
    split at h
    · cases h
    split at h
    · cases h
    rename_i hvalid
    cases h
    exact ⟨rfl, rfl, fun hmode => validateAuthority_ok hmode hvalid⟩
  · cases h

/-! ## What a witness was taken from -/

theorem readPaths_ok {vs : List Value} : ∀ {ps : List Path},
    Snapshot.readPaths vs = .ok ps → List.Forall₂ NamesPath vs ps := by
  induction vs with
  | nil => intro ps h; cases h; exact .nil
  | cons v vs ih =>
    intro ps h
    unfold Snapshot.readPaths at h
    split at h
    · cases h
    rename_i b hb
    split at h
    · cases h
    rename_i p hp
    split at h
    · cases h
    rename_i ps' hps
    cases h
    exact .cons ⟨b, hb, hp⟩ (ih hps)

/-- One part of a witness and the rows it was read from. -/
structure Taken (s : Snapshot) (g : GroupWitness) : Prop where
  scan : g.id.scanId = s.scanId
  rank : 0 ≤ g.id.rank
  generation : g.id.generation = s.generation
  consistent : g.id.rank ∉ s.inconsistentRanks
  summary : ∃ row ∈ s.tables.groupsAt (.integer g.id.rank), getString row.hash = .ok g.digest
  members : List.Forall₂ NamesPath ((s.memberRows g.id.rank).map FileRow.path) g.members

theorem requireCurrent_ok {s : Snapshot} {id : GroupId} (h : s.requireCurrent id = .ok ()) :
    id.scanId = s.scanId ∧ 0 ≤ id.rank ∧ id.generation = s.generation ∧
      id.rank ∉ s.inconsistentRanks := by
  unfold Snapshot.requireCurrent at h
  split at h
  · cases h
  split at h
  · cases h
  rename_i hid
  rw [not_or, not_not, Int.not_lt] at hid
  split at h
  · cases h
  rename_i hgeneration
  unfold Snapshot.requireConsistent at h
  split at h
  · cases h
  rename_i hrank
  exact ⟨hid.1, hid.2, not_not.1 hgeneration, hrank⟩

theorem witnessGroup_ok {s : Snapshot} {id : GroupId} {g : GroupWitness}
    (h : s.witnessGroup id = .ok g) : g.id = id ∧ Taken s g := by
  unfold Snapshot.witnessGroup at h
  split at h
  · cases h
  rename_i hcurrent
  split at h
  · cases h
  rename_i row hrow
  split at h
  · cases h
  rename_i digest hdigest
  split at h
  · cases h
  rename_i members hmembers
  cases h
  obtain ⟨hscan, hrank, hgeneration, hconsistent⟩ := requireCurrent_ok hcurrent
  refine ⟨rfl, hscan, hrank, hgeneration, hconsistent, ⟨row, List.mem_of_head? hrow, hdigest⟩, ?_⟩
  unfold Snapshot.memberPaths at hmembers
  split at hmembers
  · cases hmembers
  rename_i ps hps
  cases hmembers
  exact readPaths_ok hps

theorem witnessGroups_ok {s : Snapshot} {ids : List GroupId} : ∀ {gs : List GroupWitness},
    s.witnessGroups ids = .ok gs → (gs.map GroupWitness.id = ids ∧ ∀ g ∈ gs, Taken s g) := by
  induction ids with
  | nil => intro gs h; cases h; simp
  | cons id ids ih =>
    intro gs h
    unfold Snapshot.witnessGroups at h
    split at h
    · cases h
    rename_i g hg
    split at h
    · cases h
    rename_i gs' hgs
    cases h
    obtain ⟨hid, htaken⟩ := witnessGroup_ok hg
    obtain ⟨hids, hall⟩ := ih hgs
    exact ⟨by rw [List.map_cons, hid, hids], List.forall_mem_cons.2 ⟨htaken, hall⟩⟩

/-- The identity is of a group that the snapshot stores, with members, and every text of it can be
    read. -/
structure Snapshot.Lists (s : Snapshot) (id : GroupId) : Prop where
  scan : id.scanId = s.scanId
  generation : id.generation = s.generation
  summary : ∃ row ∈ s.tables.groupsAt (.integer id.rank), ∃ digest, getString row.hash = .ok digest
  members : s.memberRows id.rank ≠ []
  paths : ∀ f ∈ s.memberRows id.rank, ∃ p, NamesPath f.path p

/-! ## Keys -/

theorem pairwise_same_unique {β : Type} {column : β → Value} {v : Value} {ys : List β}
    (hkey : ys.Pairwise fun a b => Value.same (column a) (column b) = false) :
    ys.Pairwise fun a b => ¬(Value.same (column a) v = true ∧ Value.same (column b) v = true) :=
  hkey.imp fun {a b} h hs => by
    have := Value.same_trans hs.1 ((Value.same_comm v (column b)).trans hs.2)
    rw [h] at this; cases this

/-- Where a key is unique, a filter by it keeps one row. -/
theorem filter_key_unique {β : Type} {column : β → Value} {v : Value} {ys : List β} {y : β}
    (hkey : ys.Pairwise fun a b => Value.same (column a) (column b) = false)
    (hy : y ∈ ys.filter fun a => Value.same (column a) v) :
    (ys.filter fun a => Value.same (column a) v) = [y] ∧
      Sql.outer (fun a => Value.same (column a) v) ys = [some y] := by
  obtain ⟨hmem, hon⟩ := List.mem_filter.1 hy
  have houter := Sql.outer_unique hmem hon (pairwise_same_unique hkey)
  rw [Sql.outer_of_match (List.ne_nil_of_mem hy)] at houter
  refine ⟨?_, by rw [Sql.outer_of_match (List.ne_nil_of_mem hy), houter]⟩
  have : (ys.filter fun a => Value.same (column a) v).map some = [y].map some := houter
  exact List.map_injective_iff.2 (Option.some_injective β) this

theorem length_flatMap_one {β γ : Type} {l : List β} {f : β → List γ}
    (h : ∀ a ∈ l, (f a).length = 1) : (l.flatMap f).length = l.length := by
  induction l with
  | nil => rfl
  | cons a l ih =>
    rw [List.flatMap_cons, List.length_append, h a List.mem_cons_self,
      ih fun b hb => h b (List.mem_cons_of_mem _ hb), List.length_cons, Nat.add_comm]

/-! ## What a witness can be taken from -/

theorem readPaths_of {vs : List Value} (h : ∀ v ∈ vs, ∃ p, NamesPath v p) :
    ∃ ps, Snapshot.readPaths vs = .ok ps := by
  induction vs with
  | nil => exact ⟨[], rfl⟩
  | cons v vs ih =>
    obtain ⟨p, b, hb, hp⟩ := h v List.mem_cons_self
    obtain ⟨ps, hps⟩ := ih fun u hu => h u (List.mem_cons_of_mem v hu)
    exact ⟨p :: ps, by unfold Snapshot.readPaths; simp only [hb, hp, hps]⟩

theorem witnessGroup_of_lists {s : Snapshot} {id : GroupId} (hkeyed : s.tables.Keyed)
    (hknown : s.mode ≠ .unknown)
    (hvalid : Validated s.tables s.scanId s.mode s.generation s.inconsistentRanks)
    (hranks : s.inconsistentRanks = []) (h : s.Lists id) :
    ∃ g, s.witnessGroup id = .ok g ∧ g.members ≠ [] := by
  obtain ⟨row, hrow, digest, hdigest⟩ := h.summary
  obtain ⟨hgroups, -⟩ := filter_key_unique hkeyed.ranks hrow
  obtain ⟨hmem, hsame⟩ := List.mem_filter.1 hrow
  have hrank : 0 ≤ id.rank := by
    have hdomain := hvalid.domains row hmem
    simp only [GroupRow.cells, List.forall_mem_cons] at hdomain
    obtain ⟨n, hn, hpos⟩ := badCount_eq_false hdomain.1
    rw [hn, Value.same_integer] at hsame
    rwa [hsame] at hpos
  have hcurrent : s.requireCurrent id = .ok () := by
    unfold Snapshot.requireCurrent Snapshot.requireAuthority Snapshot.requireConsistent
    rw [if_neg hknown]
    simp only
    rw [if_neg (by rw [h.scan]; simp [hrank]), if_neg (by simp [h.generation]),
      if_neg (by simp [hranks])]
  have hnames : ∀ v ∈ (s.memberRows id.rank).map FileRow.path, ∃ p, NamesPath v p := by
    intro v hv
    obtain ⟨f, hf, rfl⟩ := List.mem_map.1 hv
    exact h.paths f hf
  obtain ⟨ps, hps⟩ := readPaths_of hnames
  refine ⟨⟨id, digest, ps⟩, ?_, fun hnil => h.members ?_⟩
  · unfold Snapshot.witnessGroup Snapshot.memberPaths ScanTables.groupsAt
    rw [hgroups]
    simp only [hcurrent, List.head?_cons, hdigest, hps]
  · have hlength := (readPaths_ok hps).length_eq
    simp only at hnil
    rw [hnil, List.length_map] at hlength
    exact List.eq_nil_of_length_eq_zero hlength

/-- **A valid snapshot answers** for the groups that it stores. -/
theorem witnessOf_of_lists {s : Snapshot} {ids : List GroupId} (hkeyed : s.tables.Keyed)
    (hknown : s.mode ≠ .unknown)
    (hvalid : Validated s.tables s.scanId s.mode s.generation s.inconsistentRanks)
    (hranks : s.inconsistentRanks = []) (hids : ∀ id ∈ ids, s.Lists id) :
    ∃ w, s.witnessOf ids = .ok w ∧ ∀ g ∈ w.groups, g.members ≠ [] := by
  have hgroups : ∃ gs, s.witnessGroups ids = .ok gs ∧ ∀ g ∈ gs, g.members ≠ [] := by
    induction ids with
    | nil => exact ⟨[], rfl, by simp⟩
    | cons id ids ih =>
      obtain ⟨g, hg, hmembers⟩ := witnessGroup_of_lists hkeyed hknown hvalid hranks
        (hids id List.mem_cons_self)
      obtain ⟨gs, hgs, hall⟩ := ih fun i hi => hids i (List.mem_cons_of_mem id hi)
      exact ⟨g :: gs, by unfold Snapshot.witnessGroups; simp only [hg, hgs],
        List.forall_mem_cons.2 ⟨hmembers, hall⟩⟩
  obtain ⟨gs, hgs, hmembers⟩ := hgroups
  refine ⟨⟨s.scanId, s.generation, gs⟩, ?_, hmembers⟩
  unfold Snapshot.witnessOf Snapshot.requireAuthority
  rw [if_neg hknown]
  simp only [hgs]

/-! ## The structure of a mode -/

/-- The structure of explicit membership. -/
structure ExplicitShape (t : ScanTables) (generation : Int) : Prop where
  cells : ∀ m ∈ t.member, memberOffence m = false
  generations : ∀ m ∈ t.member, Value.differs m.generation (.integer generation) = false
  manifest : ∀ m ∈ t.member, t.filesAt m.path ≠ []
  summaries : ∀ m ∈ t.member, t.groupsAt m.groupRank ≠ []
  paths : Sql.repeated (t.member.map MemberRow.path) = 0
  populated : ∀ g ∈ t.fileGroup, t.membersAt g.rank ≠ [] ∧ ∀ m ∈ t.membersAt g.rank, m.path ≠ .null
  digests : ∀ m ∈ t.member, ∀ g ∈ t.groupsAt m.groupRank, ∀ f ∈ t.filesAt m.path,
    CarriesDigest f g.hash


theorem same_ne_null {a b : Value} (h : Value.same a b = true) : a ≠ .null := (Value.same_iff.1 h).1

theorem filter_not_null {β : Type} {column : β → Value} {v : Value} {ys : List β} :
    ∀ y ∈ ys.filter (fun y => Value.same (column y) v), decide (column y = .null) = false :=
  fun _ hy => decide_eq_false (same_ne_null (List.mem_filter.1 hy).2)

theorem validateStructure_explicit {t : ScanTables} {scanId generation : Int} :
    validateStructure t scanId .explicit generation = .ok () ↔ ExplicitShape t generation := by
  have hok : validateStructure t scanId .explicit generation = .ok () ↔
      ∀ c ∈ explicitCounters t generation, c.1 = 0 := by
    unfold validateStructure
    simp only
    split
    · rename_i count what h
      simp only [reduceCtorEq, false_iff, not_forall]
      have := List.find?_some h
      exact ⟨(count, what), List.mem_of_find?_eq_some h, by simpa using this⟩
    · rename_i h
      simpa using List.find?_eq_none.1 h
  rw [hok]
  simp only [explicitCounters, List.forall_mem_cons, List.not_mem_nil, IsEmpty.forall_iff,
    implies_true, and_true]
  simp only [List.length_eq_zero_iff, List.flatMap_eq_nil_iff, Sql.outer_filter_all_eq_nil]
  constructor
  · rintro ⟨h₁, h₂, h₃, h₄, h₅, h₆, h₇⟩
    refine ⟨fun m hm => ?_, fun m hm => ?_, fun m hm => (h₃ m hm).1, fun m hm => (h₄ m hm).1, h₅,
      fun g hg => ⟨(h₆ g hg).1, fun m hm => ?_⟩, fun m hm g hg f hf => ?_⟩
    · simpa using List.filter_eq_nil_iff.1 h₁ m hm
    · simpa using List.filter_eq_nil_iff.1 h₂ m hm
    · simpa using (h₆ g hg).2 m hm
    · exact digestState_some.1 (by simpa using List.filter_eq_nil_iff.1 (h₇ m hm g hg) f hf)
  · rintro ⟨h₁, h₂, h₃, h₄, h₅, h₆, h₇⟩
    refine ⟨?_, ?_, fun m hm => ⟨h₃ m hm, filter_not_null⟩, fun m hm => ⟨h₄ m hm, filter_not_null⟩,
      h₅, fun g hg => ⟨(h₆ g hg).1, fun m hm => decide_eq_false ((h₆ g hg).2 m hm)⟩,
      fun m hm g hg => ?_⟩
    · exact List.filter_eq_nil_iff.2 fun m hm => by simp [h₁ m hm]
    · exact List.filter_eq_nil_iff.2 fun m hm => by simp [h₂ m hm]
    · refine List.filter_eq_nil_iff.2 fun f hf => ?_
      simpa using digestState_some.2 (h₇ m hm g hg f hf)

theorem validateStructure_derived {t : ScanTables} {scanId generation : Int} :
    validateStructure t scanId .derived generation = .ok () ↔
      t.member = [] ∧ Sql.repeated (t.fileGroup.map GroupRow.hash) = 0 := by
  unfold validateStructure
  simp only
  split
  · rename_i h
    simp only [ne_eq, List.length_eq_zero_iff] at h
    simp [h]
  · rename_i h
    simp only [ne_eq, List.length_eq_zero_iff, not_not] at h
    split
    · rename_i hd; simp [hd]
    · rename_i hd; simp [h, not_not.1 hd]

/-! ## The witness of a snapshot -/

section Grants

variable {s : Snapshot} {w : PlanWitness}

/-- What is stored of a witnessed rank under the keys of the schema. -/
structure RankStored (s : Snapshot) (g : GroupWitness) (row : GroupRow) : Prop where
  groups : s.tables.groupsAt (.integer g.id.rank) = [row]
  joined : Sql.outer (fun x => Value.same x.rank (.integer g.id.rank)) s.tables.fileGroup = [some row]
  rank : row.rank = .integer g.id.rank
  digest : getString row.hash = .ok g.digest
  count : row.fileCount = .integer (memberCount s.tables s.mode row)

theorem Taken.stored {g : GroupWitness} {ranks : List Int} (htaken : Taken s g)
    (hkeyed : s.tables.Keyed)
    (hvalid : Validated s.tables s.scanId s.mode s.generation ranks)
    (hranks : ranks = s.inconsistentRanks) : ∃ row, RankStored s g row := by
  obtain ⟨row, hrow, hdigest⟩ := htaken.summary
  obtain ⟨hgroups, hjoined⟩ := filter_key_unique hkeyed.ranks hrow
  obtain ⟨hmem, hsame⟩ := List.mem_filter.1 hrow
  have hdomain := hvalid.domains row hmem
  simp only [GroupRow.cells, List.forall_mem_cons] at hdomain
  obtain ⟨hrank, -, hcount, -⟩ := hdomain
  obtain ⟨n, hn, -⟩ := badCount_eq_false hrank
  rw [hn, Value.same_integer] at hsame
  subst hsame
  obtain ⟨c, hc, -⟩ := badCount_eq_false hcount
  have hagree := hvalid.counts row hmem _ hn (hranks ▸ htaken.consistent)
  refine ⟨row, hgroups, hjoined, hn, hdigest, ?_⟩
  rw [disagrees, hc, Value.differs_eq_not_same (by simp) (by simp), Bool.not_eq_false',
    Value.same_integer] at hagree
  rw [hc, hagree]

/-- The pathname of every member row was witnessed. -/
theorem Taken.named {g : GroupWitness} (h : Taken s g) :
    ∀ f ∈ s.memberRows g.id.rank, ∃ p ∈ g.members, NamesPath f.path p :=
  fun _ hf => exists_of_forall₂_left h.members _ (List.mem_map_of_mem hf)

/-- Every witnessed pathname has a member row. -/
theorem Taken.stands {g : GroupWitness} (h : Taken s g) :
    ∀ p ∈ g.members, ∃ f ∈ s.memberRows g.id.rank, NamesPath f.path p := by
  intro p hp
  obtain ⟨v, hv, hnames⟩ := exists_of_forall₂_right h.members p hp
  obtain ⟨f, hf, rfl⟩ := List.mem_map.1 hv
  exact ⟨f, hf, hnames⟩

theorem Taken.length {g : GroupWitness} (h : Taken s g) :
    g.members.length = (s.memberRows g.id.rank).length := by
  rw [← h.members.length_eq, List.length_map]

theorem getOptString_of {v : Value} {x : String} (h : getString v = .ok x) :
    getOptString v = .ok (some x) := getOptString_ok.2 (.inr ⟨x, h, rfl⟩)

/-- A row whose cells are of their classes can be read. -/
theorem readColumns_of {n : Nat} {r : WitnessRow} {x : String} {k : Int} {p : Path}
    (hhash : getString r.hash = .ok x) (hcount : r.fileCount = .integer k)
    (hpath : NamesPath r.path p) (hgen : r.generation = .null ∨ ∃ g, r.generation = .integer g) :
    ∃ a, readColumns n r = .ok a := by
  obtain ⟨text, htext, -⟩ := hpath
  obtain ⟨mg, hmg⟩ : ∃ mg, getOptInteger r.generation = .ok mg := by
    rcases hgen with hv | ⟨g, hv⟩
    · exact ⟨none, by rw [hv]; rfl⟩
    · exact ⟨some g, by rw [hv]; rfl⟩
  exact ⟨⟨r.rank, r.witnessDigest, some x, some k, some text, mg, n, r.digestState⟩,
    readColumns_ok.2 ⟨getOptString_of hhash, by rw [hcount]; rfl,
      getOptText_ok.2 (.inr ⟨text, htext, rfl⟩), hmg, rfl, rfl, rfl, rfl⟩⟩

/-- Under a summary, members and manifest rows that are all there, the statement is an inner join. -/
theorem explicitRowsOf_eq {t : ScanTables} {g : GroupWitness} {row : GroupRow}
    (hjoined : Sql.outer (fun x => Value.same x.rank (.integer g.id.rank)) t.fileGroup = [some row])
    (hmembers : t.membersAt (.integer g.id.rank) ≠ [])
    (hfiles : ∀ m ∈ t.membersAt (.integer g.id.rank), t.filesAt m.path ≠ []) :
    explicitRowsOf t g = (t.membersAt (.integer g.id.rank)).flatMap fun m =>
      (t.filesAt m.path).map fun f =>
        ⟨g.id.rank, g.digest, row.hash, row.fileCount, m.path, m.generation, true,
          digestState (some f) row.hash⟩ := by
  have houter : Sql.outer (fun m => Value.same m.groupRank (.integer g.id.rank)) t.member =
      (t.membersAt (.integer g.id.rank)).map some := Sql.outer_of_match hmembers
  unfold explicitRowsOf
  rw [hjoined, List.flatMap_singleton, houter, List.flatMap_map]
  refine List.flatMap_congr fun m hm => ?_
  have hfile : Sql.outer (fun f => Value.same f.path m.path) t.file =
      (t.filesAt m.path).map some := Sql.outer_of_match (hfiles m hm)
  simp only [cellOf, hfile, List.map_map]
  rfl

/-- A member of a sound explicit scan has one manifest row. -/
theorem ExplicitShape.filesAt_length {t : ScanTables} {generation : Int}
    (h : ExplicitShape t generation) (hkeyed : t.Keyed) :
    ∀ m ∈ t.member, (t.filesAt m.path).length = 1 := by
  intro m hm
  obtain ⟨f, hf⟩ := List.exists_mem_of_ne_nil _ (h.manifest m hm)
  have : t.filesAt m.path = [f] := (filter_key_unique hkeyed.paths hf).1
  rw [this]; rfl

/-- A member's pathname cell is a text, and its manifest row has the same one. -/
theorem ExplicitShape.path_eq {t : ScanTables} {generation : Int} (h : ExplicitShape t generation) :
    ∀ m ∈ t.member, ∀ f ∈ t.filesAt m.path, f.path = m.path := by
  intro m hm f hf
  have hcell := h.cells m hm
  have hsame := (List.mem_filter.1 hf).2
  cases hv : m.path with
  | text b => rw [hv] at hsame; rw [Value.same_text.1 hsame]
  | _ => simp [memberOffence, hv] at hcell

theorem ExplicitShape.generation_eq {t : ScanTables} {generation : Int}
    (h : ExplicitShape t generation) : ∀ m ∈ t.member, m.generation = .integer generation := by
  intro m hm
  have hcell := h.cells m hm
  have hdiffers := h.generations m hm
  cases hv : m.generation with
  | integer n =>
    rw [hv, Value.differs_eq_not_same (by simp) (by simp), Bool.not_eq_false',
      Value.same_integer] at hdiffers
    rw [hdiffers]
  | _ => simp [memberOffence, hv] at hcell

theorem mem_of_membersAt {t : ScanTables} {rank : Value} {m : MemberRow} (h : m ∈ t.membersAt rank) :
    m ∈ t.member := (List.mem_filter.1 h).1

theorem mem_memberRows_explicit (hmode : s.mode = .explicit) {rank : Int} {f : FileRow} :
    f ∈ s.memberRows rank ↔
      ∃ m ∈ s.tables.membersAt (.integer rank), f ∈ s.tables.filesAt m.path := by
  unfold Snapshot.memberRows
  rw [hmode]
  simp only [List.mem_flatMap, Sql.mem_orderBy]

/-- The rows of a witnessed rank are its members with their manifest rows, one each. -/
theorem Taken.explicitRows {g : GroupWitness} {ranks : List Int} (htaken : Taken s g)
    (hmode : s.mode = .explicit) (hkeyed : s.tables.Keyed)
    (hshape : ExplicitShape s.tables s.generation)
    (hvalid : Validated s.tables s.scanId s.mode s.generation ranks)
    (hranks : ranks = s.inconsistentRanks) (hmembers : g.members ≠ []) :
    ∃ row, RankStored s g row ∧ row.fileCount = .integer g.members.length ∧
      (explicitRowsOf s.tables g).length = g.members.length ∧
      ∀ r, r ∈ explicitRowsOf s.tables g ↔
        ∃ m ∈ s.tables.membersAt (.integer g.id.rank), ∃ f ∈ s.tables.filesAt m.path,
          r = ⟨g.id.rank, g.digest, row.hash, row.fileCount, m.path, m.generation, true,
            digestState (some f) row.hash⟩ := by
  obtain ⟨row, hstored⟩ := htaken.stored hkeyed hvalid hranks
  have hone : ∀ m ∈ s.tables.membersAt (.integer g.id.rank), (s.tables.filesAt m.path).length = 1 :=
    fun m hm => hshape.filesAt_length hkeyed m (mem_of_membersAt hm)
  have hlength : (s.tables.membersAt (.integer g.id.rank)).length = g.members.length := by
    rw [htaken.length]
    unfold Snapshot.memberRows
    rw [hmode]
    simp only
    rw [length_flatMap_one fun m hm => hone m (Sql.mem_orderBy.1 hm),
      (Sql.orderBy_perm _ _).length_eq]
  have hne : s.tables.membersAt (.integer g.id.rank) ≠ [] := by
    intro hnil
    rw [hnil, List.length_nil] at hlength
    exact hmembers (List.length_eq_zero_iff.1 hlength.symm)
  have heq := explicitRowsOf_eq hstored.joined hne
    fun m hm => hshape.manifest m (mem_of_membersAt hm)
  refine ⟨row, hstored, ?_, ?_, fun r => ?_⟩
  · have hcount : memberCount s.tables .explicit row =
        (s.tables.membersAt row.rank).length := rfl
    rw [hstored.count, hmode, hcount, hstored.rank, hlength]
  · rw [heq, length_flatMap_one fun m hm => by rw [List.length_map, hone m hm], hlength]
  · rw [heq]
    simp only [List.mem_flatMap, List.mem_map, eq_comm]

theorem explicit_grants {ranks : List Int} (hmode : s.mode = .explicit) (hkeyed : s.tables.Keyed)
    (hvalid : Validated s.tables s.scanId s.mode s.generation ranks)
    (hranks : ranks = s.inconsistentRanks)
    (htaken : ∀ g ∈ w.groups, Taken s g) (hmembers : ∀ g ∈ w.groups, g.members ≠ [])
    (hnd : (w.groups.map fun g => g.id.rank).Nodup) :
    validateExplicitWitness s.tables w s.generation = .ok () := by
  have hshape : ExplicitShape s.tables s.generation :=
    validateStructure_explicit.1 (hmode ▸ hvalid.shape)
  have hrows := fun g hg =>
    (htaken g hg).explicitRows hmode hkeyed hshape hvalid hranks (hmembers g hg)
  have hnames : ∀ g ∈ w.groups, ∀ m ∈ s.tables.membersAt (.integer g.id.rank),
      ∃ p ∈ g.members, NamesPath m.path p := by
    intro g hg m hm
    obtain ⟨f, hf⟩ := List.exists_mem_of_ne_nil _ (hshape.manifest m (mem_of_membersAt hm))
    rw [← hshape.path_eq m (mem_of_membersAt hm) f hf]
    exact (htaken g hg).named f ((mem_memberRows_explicit hmode).2 ⟨m, hm, hf⟩)
  have hsummary : ∀ g ∈ w.groups, ∀ r ∈ explicitRowsOf s.tables g,
      getString r.hash = .ok g.digest ∧ r.fileCount = .integer g.members.length := by
    intro g hg r hr
    obtain ⟨row, hstored, hcount, -, hmem⟩ := hrows g hg
    obtain ⟨m, hm, f, hf, rfl⟩ := (hmem r).1 hr
    exact ⟨hstored.digest, hcount⟩
  unfold validateExplicitWitness
  refine stream_of_judged (explicit_rowsFor s.tables) hnd ?_ hsummary fun g hg => ?_
  · intro g hg r hr
    obtain ⟨hs, hn⟩ := hsummary g hg r hr
    obtain ⟨row, -, -, -, hmem⟩ := hrows g hg
    obtain ⟨m, hm, f, hf, rfl⟩ := (hmem r).1 hr
    obtain ⟨p, -, hp⟩ := hnames g hg m hm
    obtain ⟨a, ha⟩ := readColumns_of hs hn hp
      (.inr ⟨_, hshape.generation_eq m (mem_of_membersAt hm)⟩)
    exact ⟨a, readExplicit_ok.2 ⟨ha, fun _ => rfl, hshape.paths⟩, ha⟩
  obtain ⟨row, hstored, hcount, hlength, hmem⟩ := hrows g hg
  refine ⟨?_, ?_, ?_, ?_⟩
  · obtain ⟨r, hr⟩ := List.exists_mem_of_ne_nil _ ((explicit_rowsFor s.tables).some_row g)
    exact ⟨r, hr, hsummary g hg r hr⟩
  · rw [← hlength, List.filter_eq_self.2]
    intro r hr
    obtain ⟨m, hm, f, hf, rfl⟩ := (hmem r).1 hr
    obtain ⟨p, -, hp⟩ := hnames g hg m hm
    simpa using hp.ne_null
  · intro r hr _
    obtain ⟨m, hm, f, hf, rfl⟩ := (hmem r).1 hr
    refine ⟨hnames g hg m hm, fun expected found he hfound => ?_, ?_⟩
    · simp only [hshape.generation_eq m (mem_of_membersAt hm), Value.integer.injEq] at hfound
      cases he; exact hfound.symm
    · have hrow : row ∈ s.tables.groupsAt (.integer g.id.rank) := by rw [hstored.groups]; simp
      have hgroup : row ∈ s.tables.groupsAt m.groupRank := by
        obtain ⟨hin, hsame⟩ := List.mem_filter.1 hrow
        refine List.mem_filter.2 ⟨hin, Value.same_trans hsame ?_⟩
        rw [Value.same_comm]; exact (List.mem_filter.1 hm).2
      have hstate := digestState_some.2 (hshape.digests m (mem_of_membersAt hm) row hgroup f hf)
      simp only [hstate]; rfl
  · intro p hp
    obtain ⟨f, hf, hp⟩ := (htaken g hg).stands p hp
    obtain ⟨m, hm, hf⟩ := (mem_memberRows_explicit hmode).1 hf
    refine ⟨_, (hmem _).2 ⟨m, hm, f, hf, rfl⟩, ?_⟩
    simp only
    rw [← hshape.path_eq m (mem_of_membersAt hm) f hf]; exact hp

theorem derivedRowsOf_eq {t : ScanTables} {g : GroupWitness} {row : GroupRow}
    (hjoined : Sql.outer (fun x => Value.same x.rank (.integer g.id.rank)) t.fileGroup = [some row])
    (hfiles : t.filesOf row.hash ≠ []) :
    derivedRowsOf t g = (t.filesOf row.hash).map fun f =>
      ⟨g.id.rank, g.digest, row.hash, row.fileCount, f.path, .null, true, 6⟩ := by
  have houter : Sql.outer (fun f => Value.same f.hash (Sql.unhex row.hash)) t.file =
      (t.filesOf row.hash).map some := Sql.outer_of_match hfiles
  unfold derivedRowsOf
  rw [hjoined, List.flatMap_singleton]
  simp only [cellOf, houter, List.map_map]
  rfl

theorem memberRows_derived (hmode : s.mode = .derived) {rank : Int} {row : GroupRow}
    (hgroups : s.tables.groupsAt (.integer rank) = [row]) :
    (s.memberRows rank).Perm (s.tables.filesOf row.hash) := by
  unfold Snapshot.memberRows
  rw [hmode, hgroups]
  simp only [List.flatMap_singleton]
  exact Sql.orderBy_perm _ _

theorem derived_grants {ranks : List Int} (hmode : s.mode = .derived) (hkeyed : s.tables.Keyed)
    (hvalid : Validated s.tables s.scanId s.mode s.generation ranks)
    (hranks : ranks = s.inconsistentRanks)
    (htaken : ∀ g ∈ w.groups, Taken s g) (hmembers : ∀ g ∈ w.groups, g.members ≠ [])
    (hnd : (w.groups.map fun g => g.id.rank).Nodup) :
    validateDerivedWitness s.tables w = .ok () := by
  obtain ⟨hnone, hdigests⟩ := validateStructure_derived.1 (hmode ▸ hvalid.shape)
  have hrows : ∀ g ∈ w.groups, ∃ row, RankStored s g row ∧
      row.fileCount = .integer g.members.length ∧ (derivedRowsOf s.tables g).length = g.members.length ∧
      ∀ r, r ∈ derivedRowsOf s.tables g ↔ ∃ f ∈ s.memberRows g.id.rank,
        r = ⟨g.id.rank, g.digest, row.hash, row.fileCount, f.path, .null, true, 6⟩ := by
    intro g hg
    obtain ⟨row, hstored⟩ := (htaken g hg).stored hkeyed hvalid hranks
    have hperm := memberRows_derived hmode hstored.groups
    have hlength : (s.tables.filesOf row.hash).length = g.members.length := by
      rw [(htaken g hg).length, hperm.length_eq]
    have hne : s.tables.filesOf row.hash ≠ [] := by
      intro hnil
      rw [hnil, List.length_nil] at hlength
      exact hmembers g hg (List.length_eq_zero_iff.1 hlength.symm)
    have heq := derivedRowsOf_eq hstored.joined hne
    refine ⟨row, hstored, ?_, ?_, fun r => ?_⟩
    · have hcount : memberCount s.tables .derived row = (s.tables.filesOf row.hash).length := rfl
      rw [hstored.count, hmode, hcount, hlength]
    · rw [heq, List.length_map, hlength]
    · rw [heq]
      simp only [List.mem_map, hperm.mem_iff, eq_comm]
  have hsummary : ∀ g ∈ w.groups, ∀ r ∈ derivedRowsOf s.tables g,
      getString r.hash = .ok g.digest ∧ r.fileCount = .integer g.members.length := by
    intro g hg r hr
    obtain ⟨row, hstored, hcount, -, hmem⟩ := hrows g hg
    obtain ⟨f, hf, rfl⟩ := (hmem r).1 hr
    exact ⟨hstored.digest, hcount⟩
  have hstream : streamWitnessedRanks w none
      (readDerived (observedAt (witnessRows (derivedRowsOf s.tables) w.groups))
        (Sql.repeated (s.tables.fileGroup.map GroupRow.hash)))
      (witnessRows (derivedRowsOf s.tables) w.groups) = .ok () := by
    refine stream_of_judged (derived_rowsFor s.tables) hnd ?_ hsummary fun g hg => ?_
    · intro g hg r hr
      obtain ⟨hs, hn⟩ := hsummary g hg r hr
      obtain ⟨row, -, -, -, hmem⟩ := hrows g hg
      obtain ⟨f, hf, rfl⟩ := (hmem r).1 hr
      obtain ⟨p, -, hp⟩ := (htaken g hg).named f hf
      obtain ⟨a, ha⟩ := readColumns_of hs hn hp (.inl rfl)
      exact ⟨a, readDerived_ok.2 ⟨ha, hdigests⟩, ha⟩
    obtain ⟨row, hstored, hcount, hlength, hmem⟩ := hrows g hg
    refine ⟨?_, ?_, ?_, ?_⟩
    · obtain ⟨r, hr⟩ := List.exists_mem_of_ne_nil _ ((derived_rowsFor s.tables).some_row g)
      exact ⟨r, hr, hsummary g hg r hr⟩
    · rw [← hlength, List.filter_eq_self.2]
      intro r hr
      obtain ⟨f, hf, rfl⟩ := (hmem r).1 hr
      obtain ⟨p, -, hp⟩ := (htaken g hg).named f hf
      simpa using hp.ne_null
    · intro r hr _
      obtain ⟨f, hf, rfl⟩ := (hmem r).1 hr
      exact ⟨(htaken g hg).named f hf, fun expected found he => (by cases he), rfl⟩
    · intro p hp
      obtain ⟨f, hf, hp⟩ := (htaken g hg).stands p hp
      exact ⟨_, (hmem _).2 ⟨f, hf, rfl⟩, hp⟩
  unfold validateDerivedWitness
  simp only [hstream, hnone, ne_eq, not_true_eq_false, if_false]

theorem groupId_eq {a b : GroupId} (hscan : a.scanId = b.scanId) (hrank : a.rank = b.rank)
    (hgeneration : a.generation = b.generation) : a = b := by
  cases a; cases b; simp_all

/-- **What a snapshot witnesses, a lease grants.** -/
theorem witness_granted {db db' : Database} {scanId : Int} {ids : List GroupId}
    (hkeyed : (db.tables scanId).Keyed) (hsnapshot : membershipSnapshot db scanId = .ok s)
    (hids : ids ≠ []) (hnd : ids.Nodup) (hwitness : s.witnessOf ids = .ok w)
    (hmembers : ∀ g ∈ w.groups, g.members ≠ []) (hscan : db'.hasScan scanId = true)
    (hsame : db'.tables scanId = db.tables scanId) :
    acquireMembershipLease none db' w = .ok () := by
  unfold membershipSnapshot at hsnapshot
  split at hsnapshot
  swap
  · cases hsnapshot
  simp only at hsnapshot
  split at hsnapshot
  · cases hsnapshot
  rename_i mode generation hauthority
  split at hsnapshot
  · cases hsnapshot
  rename_i ranks hvalid
  cases hsnapshot
  unfold Snapshot.witnessOf at hwitness
  split at hwitness
  · cases hwitness
  rename_i hmode
  split at hwitness
  · cases hwitness
  rename_i groups hgroups
  cases hwitness
  unfold Snapshot.requireAuthority at hmode
  split at hmode
  · cases hmode
  rename_i hknown
  simp only at hgroups hmembers hknown
  obtain ⟨hid, htaken⟩ := witnessGroups_ok hgroups
  have hvalidated := validateAuthority_ok hknown hvalid
  have hranks : (groups.map fun g => g.id.rank).Nodup := by
    have hmap : (groups.map fun g => g.id.rank) = ids.map GroupId.rank := by
      rw [← hid, List.map_map]; rfl
    rw [hmap]
    refine hnd.map_on fun a ha b hb hab => ?_
    rw [← hid] at ha hb
    obtain ⟨g, hg, rfl⟩ := List.mem_map.1 ha
    obtain ⟨g', hg', rfl⟩ := List.mem_map.1 hb
    have h := htaken g hg
    have h' := htaken g' hg'
    exact groupId_eq (h.scan.trans h'.scan.symm) hab (h.generation.trans h'.generation.symm)
  have hpreflight : preflight ⟨scanId, generation, groups⟩ = none := by
    refine preflight_eq_none.2 ⟨?_, fun g hg => ?_, hranks⟩
    · rintro hnil
      simp only at hnil
      rw [hnil] at hid
      exact hids hid.symm
    · exact ⟨(htaken g hg).scan, (htaken g hg).generation, (htaken g hg).rank, hmembers g hg⟩
  split at hauthority
  · cases hauthority; exact absurd rfl hknown
  rename_i modeCell generationCell hmembership
  split at hauthority
  · cases hauthority
  rename_i authority hdecode
  cases hauthority
  unfold acquireMembershipLease
  rw [hpreflight]
  simp only
  unfold validateLeaseWitness
  simp only [hscan, if_true, hsame, hmembership, hdecode, ne_eq, not_true_eq_false, if_false]
  rcases (decodeAuthority_ok hdecode).1 with ⟨-, rfl⟩ | ⟨-, rfl⟩
  · exact derived_grants (s := ⟨db.tables scanId, scanId, .derived, generation, ranks⟩) rfl hkeyed
      hvalidated rfl htaken hmembers hranks
  · exact explicit_grants (s := ⟨db.tables scanId, scanId, .explicit, generation, ranks⟩) rfl hkeyed
      hvalidated rfl htaken hmembers hranks

end Grants

/-- **The lease is exact.** A grant has found the authority at the witness's generation and every
witnessed rank with the witnessed digest, count and members, whatever the rows of the database; and
a valid snapshot gives out a witness of any of its groups, which is granted as long as the scan's
rows stand. -/
theorem lease_exact (db : Database) :
    (∀ (begin : Option LeaseRefusal) (w : PlanWitness),
      acquireMembershipLease begin db w = .ok () →
      db.hasScan w.scanId = true ∧ ∃ mode generation m,
        (db.tables w.scanId).membership = some (mode, generation) ∧
        decodeAuthority mode generation = .ok (m, w.generation) ∧
        ∀ g ∈ w.groups, RankAsWitnessed (db.tables w.scanId) m g) ∧
    (∀ (scanId : Int) (s : Snapshot) (ids : List GroupId),
      (db.tables scanId).Keyed → membershipSnapshot db scanId = .ok s → s.mode ≠ .unknown →
      s.inconsistentRanks = [] → ids ≠ [] → ids.Nodup →
      ((∀ id ∈ ids, s.Lists id) →
        ∃ w, s.witnessOf ids = .ok w ∧ ∀ g ∈ w.groups, g.members ≠ []) ∧
      ∀ w, s.witnessOf ids = .ok w → (∀ g ∈ w.groups, g.members ≠ []) →
      ∀ db' : Database, db'.hasScan scanId = true → db'.tables scanId = db.tables scanId →
      acquireMembershipLease none db' w = .ok ()) := by
  refine ⟨fun _ _ h => lease_granted h,
    fun scanId s ids hkeyed hsnapshot hknown hranks hids hnd => ⟨fun hlists => ?_,
      fun w hwitness hmembers _ hscan hsame =>
        witness_granted hkeyed hsnapshot hids hnd hwitness hmembers hscan hsame⟩⟩
  obtain ⟨htables, -, hvalid⟩ := membershipSnapshot_ok hsnapshot
  exact witnessOf_of_lists (htables ▸ hkeyed) hknown (hvalid hknown) hranks hlists

/-- A manifest row of `/letter`, under a digest of thirty-two equal octets. -/
def sampleFile (letter : Byte) : FileRow where
  path := .text [47, letter]
  size := .integer 5
  mtime := 1
  mtimeNsec := 0
  ctimeSec := 1
  ctimeNsec := 0
  identityVersion := 1
  device := 1
  inode := letter.val
  nlink := .integer 1
  hash := .blob (List.replicate 32 0xAA)

/-- Two copies, published as one explicit group. -/
def samplePublished : Database where
  hasScan := fun id => decide (id = 1)
  tables := fun _ =>
    { file := [sampleFile 97, sampleFile 98]
      fileGroup := [⟨1, .integer 0, .text (List.replicate 64 97), .integer 2, .integer 5, .integer 5,
        .integer 2, .integer 1⟩]
      member := [⟨.integer 0, .text [47, 97], .integer 3⟩, ⟨.integer 0, .text [47, 98], .integer 3⟩]
      membership := some (.integer 2, .integer 3)
      stats := none }

def sampleGroup : GroupWitness where
  id := ⟨1, 0, 3⟩
  digest := String.ofList (List.replicate 64 'a')
  members := [[.rootDir, .normal ⟨[97], by decide⟩], [.rootDir, .normal ⟨[98], by decide⟩]]

/-- The snapshot of that scan. -/
def sampleSnapshot : Snapshot := ⟨samplePublished.tables 1, 1, .explicit, 3, []⟩

theorem sampleSnapshot_lists : sampleSnapshot.Lists ⟨1, 0, 3⟩ where
  scan := rfl
  generation := rfl
  summary := ⟨_, List.mem_cons_self, _, rfl⟩
  members := by decide
  paths := by
    intro f hf
    have hrows : sampleSnapshot.memberRows 0 = [sampleFile 97, sampleFile 98] := by rfl
    rw [hrows, List.mem_pair] at hf
    rcases hf with rfl | rfl
    · exact ⟨[.rootDir, .normal ⟨[97], by decide⟩], [47, 97], rfl, by rfl⟩
    · exact ⟨[.rootDir, .normal ⟨[98], by decide⟩], [47, 98], rfl, by rfl⟩

theorem lease_exact_sample :
    sampleSnapshot.witnessOf [⟨1, 0, 3⟩] = .ok ⟨1, 3, [sampleGroup]⟩ ∧
      acquireMembershipLease none samplePublished ⟨1, 3, [sampleGroup]⟩ = .ok () ∧
      RankAsWitnessed (samplePublished.tables 1) .explicit sampleGroup := by
  obtain ⟨hanswers, hgrants⟩ := (lease_exact samplePublished).2 1 sampleSnapshot [⟨1, 0, 3⟩]
    ⟨by decide, by decide⟩ (by rfl) (by decide) rfl (by decide) (by decide)
  obtain ⟨w, hw, hmembers⟩ := hanswers (by simpa using sampleSnapshot_lists)
  have hsample : sampleSnapshot.witnessOf [⟨1, 0, 3⟩] = .ok ⟨1, 3, [sampleGroup]⟩ := by rfl
  rw [hsample] at hw
  cases hw
  have hgranted := hgrants _ hsample hmembers samplePublished rfl rfl
  obtain ⟨-, mode, generation, m, hcells, hdecode, hranks⟩ :=
    (lease_exact samplePublished).1 none _ hgranted
  cases hcells
  cases hdecode
  exact ⟨hsample, hgranted, hranks _ (by simp)⟩

end DedupCommando
