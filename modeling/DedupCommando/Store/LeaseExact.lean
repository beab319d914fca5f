import DedupCommando.Store.Lease

/-!
# What a granted lease has established

* `Judged` — what the rows of one wanted rank have to say for the lease to accept them.
* `stream_ok`, `stream_of_judged` — the streamed validation accepts exactly such rows.
* `RankAsWitnessed` — the summary, the count and the members of a rank are the witness's.
* `lease_granted` — a granted lease has found every rank as witnessed.
-/

set_option autoImplicit false

namespace DedupCommando

open Sql (Value)

/-- A pathname cell names a path. -/
def NamesPath (v : Value) (p : Path) : Prop := ∃ b, getText v = .ok b ∧ Path.ofText b = some p

/-! ## Reading -/

theorem readColumns_ok {n : Nat} {r : WitnessRow} {a : ReadRow} :
    readColumns n r = .ok a ↔
      getOptString r.hash = .ok a.currentDigest ∧ getOptInteger r.fileCount = .ok a.declaredCount ∧
      getOptText r.path = .ok a.memberPath ∧ getOptInteger r.generation = .ok a.memberGeneration ∧
      a.rank = r.rank ∧ a.witnessDigest = r.witnessDigest ∧ a.observed = n ∧
      a.digestState = r.digestState := by
  obtain ⟨rank, witnessDigest, currentDigest, declaredCount, memberPath, memberGeneration, observed,
    state⟩ := a
  unfold readColumns
  split
  · rename_i e h; simp [h]
  rename_i cd hcd
  split
  · rename_i e h; simp [h]
  rename_i dc hdc
  split
  · rename_i e h; simp [h]
  rename_i mp hmp
  split
  · rename_i e h; simp [h]
  rename_i mg hmg
  simp only [hcd, hdc, hmp, hmg, Except.ok.injEq, ReadRow.mk.injEq]
  constructor
  · rintro ⟨rfl, rfl, rfl, rfl, rfl, rfl, rfl, rfl⟩; simp
  · rintro ⟨rfl, rfl, rfl, rfl, rfl, rfl, rfl, rfl⟩; simp

theorem readExplicit_ok {observed : Int → Nat} {duplicated : Nat} {r : WitnessRow} {a : ReadRow} :
    readExplicit observed duplicated r = .ok a ↔
      readColumns (observed r.rank) r = .ok a ∧ (r.path ≠ .null → r.hasManifest = true) ∧
        duplicated = 0 := by
  unfold readExplicit
  split
  · rename_i h; simp [h]
  rename_i row h
  have hpath : row.memberPath.isSome = true ↔ r.path ≠ .null := by
    rcases getOptText_ok.1 (readColumns_ok.1 h).2.2.1 with ⟨hv, ho⟩ | ⟨b, hb, ho⟩
    · simp [hv, ho]
    · simp [(getText_ok.1 hb).1, ho]
  rw [h]
  split
  · rename_i hm
    simp only [reduceCtorEq, Except.ok.injEq, false_iff, not_and]
    intro _ hall
    rw [hall (hpath.1 hm.1)] at hm
    exact absurd hm.2 (by decide)
  · rename_i hm
    have hmanifest : r.path ≠ .null → r.hasManifest = true := by
      intro hp
      by_contra hf
      exact hm ⟨hpath.2 hp, by simpa using hf⟩
    split
    · rename_i hd; simp [hd]
    · rename_i hd
      simpa [not_not.1 hd] using fun _ => hmanifest

theorem readDerived_ok {observed : Int → Nat} {duplicateDigests : Nat} {r : WitnessRow}
    {a : ReadRow} :
    readDerived observed duplicateDigests r = .ok a ↔
      readColumns (observed r.rank) r = .ok a ∧ duplicateDigests = 0 := by
  unfold readDerived
  split
  · rename_i h; simp [h]
  rename_i row h
  rw [h]
  split
  · rename_i hd; simp [hd]
  · rename_i hd; simp [not_not.1 hd]

/-! ## Gathering -/

/-- The member a row brings. -/
def ReadRow.member (a : ReadRow) : Option (Bytes × Option Int × Nat) :=
  a.memberPath.map fun path => (path, a.memberGeneration, a.digestState)

theorem foldl_push (as : List ReadRow) : ∀ w : WitnessedRank,
    as.foldl WitnessedRank.push w = { w with members := w.members ++ as.filterMap ReadRow.member } := by
  induction as with
  | nil => simp
  | cons a as ih =>
    intro w
    rw [List.foldl_cons, ih]
    unfold WitnessedRank.push
    split
    · rename_i path hp
      simp [ReadRow.member, hp]
    · rename_i hp
      simp [ReadRow.member, hp]

/-! ## Judging -/

theorem memberRefusal_eq_none {group : GroupWitness} {generation : Option Int} {rank : Int}
    {m : Bytes × Option Int × Nat} :
    memberRefusal group generation rank m = none ↔
      (∃ p ∈ group.members, Path.ofText m.1 = some p) ∧
      (∀ expected found, generation = some expected → m.2.1 = some found → found = expected) ∧
      wrongDigest m.2.2 = none := by
  obtain ⟨path, found, state⟩ := m
  unfold memberRefusal
  by_cases hin : (group.members.any fun p => decide (Path.ofText path = some p)) = true
  · have hin' : ∃ p ∈ group.members, Path.ofText path = some p := by simpa using hin
    simp only [hin, Bool.not_true, Bool.false_eq_true, if_false]
    cases generation with
    | none => simp [hin']
    | some expected =>
      cases found with
      | none => simp [hin']
      | some found =>
        by_cases hf : found = expected
        · simp [hf, hin']
        · simp [hf]
  · have hin' : ¬∃ p ∈ group.members, Path.ofText path = some p := by simpa using hin
    simp [hin, hin']

theorem checkWitnessedRank_ok {groups : List GroupWitness} {generation : Option Int}
    {checked : WitnessedRank} :
    checkWitnessedRank groups generation checked = .ok () ↔
      ∃ group, groups.find? (fun g => decide (g.id.rank = checked.rank)) = some group ∧
        checked.currentDigest = some checked.witnessDigest ∧
        checked.declaredCount = some (group.members.length : Int) ∧
        checked.observed = group.members.length ∧
        (∀ m ∈ checked.members, memberRefusal group generation checked.rank m = none) ∧
        ∀ p ∈ group.members, ∃ m ∈ checked.members, Path.ofText m.1 = some p := by
  unfold checkWitnessedRank
  split
  · rename_i h; simp [h]
  rename_i group hgroup
  simp only [hgroup, Option.some.injEq, exists_eq_left']
  split
  · rename_i hd
    split <;> simp [hd]
  rename_i currentDigest hd
  rw [hd]
  split
  · rename_i hne; simp [hne]
  rename_i hdigest
  split
  · rename_i hne
    simp only [reduceCtorEq, false_iff, not_and]
    intro _ hdeclared hobserved
    rw [hdeclared, hobserved] at hne
    exact absurd rfl hne
  rename_i hdeclared
  split
  · rename_i hne; simp [hne]
  rename_i hcount
  have hdeclared' : checked.declaredCount = some (group.members.length : Int) := by
    rw [not_not] at hdeclared hcount
    cases hc : checked.declaredCount with
    | none =>
      rw [hc, Option.getD_none] at hdeclared
      omega
    | some n =>
      rw [hc, Option.getD_some] at hdeclared
      rw [hdeclared, hcount]
  split
  · rename_i refusal hr
    simp only [reduceCtorEq, false_iff, not_and]
    intro _ _ _ hall
    obtain ⟨m, hm, hm'⟩ := List.exists_of_findSome?_eq_some hr
    rw [hall m hm] at hm'; cases hm'
  rename_i hmembers
  split
  · rename_i p hp
    simp only [reduceCtorEq, false_iff, not_and, not_forall]
    intro _ _ _ _
    refine ⟨p, List.mem_of_find?_eq_some hp, ?_⟩
    have := List.find?_some hp
    simpa using this
  rename_i hlive
  refine iff_of_true rfl ⟨by rw [not_not.1 hdigest], hdeclared', not_not.1 hcount,
    List.findSome?_eq_none_iff.1 hmembers, fun p hp => ?_⟩
  have := List.find?_eq_none.1 hlive p hp
  simpa using this

/-! ## The rows of one rank -/

/-- What the rows of one wanted rank say when the lease accepts them. -/
structure Judged (rows : List WitnessRow) (generation : Option Int) (g : GroupWitness) : Prop where
  summary : ∃ r ∈ rows, getString r.hash = .ok g.digest ∧ r.fileCount = .integer g.members.length
  count : (rows.filter fun r => decide (r.path ≠ .null)).length = g.members.length
  each : ∀ r ∈ rows, r.path ≠ .null → (∃ p ∈ g.members, NamesPath r.path p) ∧
    (∀ expected found, generation = some expected → r.generation = .integer found →
      found = expected) ∧ wrongDigest r.digestState = none
  all : ∀ p ∈ g.members, ∃ r ∈ rows, NamesPath r.path p

section Stream

/-- A statement's rows carry the rank and the digest of the want they are for, and no want is
without a row. -/
structure RowsFor (rowsOf : GroupWitness → List WitnessRow) : Prop where
  rank : ∀ g, ∀ r ∈ rowsOf g, r.rank = g.id.rank
  digest : ∀ g, ∀ r ∈ rowsOf g, r.witnessDigest = g.digest
  some_row : ∀ g, rowsOf g ≠ []

variable {rowsOf : GroupWitness → List WitnessRow} {w : PlanWitness} {generation : Option Int}
  {read : WitnessRow → Except LeaseRefusal ReadRow}

theorem mem_witnessRows {r : WitnessRow} {gs : List GroupWitness} :
    r ∈ witnessRows rowsOf gs ↔ ∃ g ∈ gs, r ∈ rowsOf g := by
  rw [witnessRows, Sql.mem_orderBy, List.mem_flatMap]

/-- The rows of one rank are the rows of the want of that rank, whatever their order. -/
theorem run_perm (hrows : RowsFor rowsOf) (hnd : (w.groups.map fun g => g.id.rank).Nodup)
    {g : GroupWitness} (hg : g ∈ w.groups) :
    ((witnessRows rowsOf w.groups).filter fun r => decide (r.rank = g.id.rank)).Perm (rowsOf g) := by
  have hperm := (Sql.orderBy_perm (fun r : WitnessRow => toLex (r.rank, r.path.key))
    (w.groups.flatMap rowsOf)).filter fun r => decide (r.rank = g.id.rank)
  have hown : (w.groups.flatMap rowsOf).filter (fun r => decide (r.rank = g.id.rank)) = rowsOf g :=
    Grouping.filter_flatMap_key hrows.rank hnd hg
  rwa [hown] at hperm

theorem observedAt_eq (hrows : RowsFor rowsOf) (hnd : (w.groups.map fun g => g.id.rank).Nodup)
    {g : GroupWitness} (hg : g ∈ w.groups) :
    observedAt (witnessRows rowsOf w.groups) g.id.rank =
      ((rowsOf g).filter fun r => decide (r.path ≠ .null)).length := by
  rw [← ((run_perm hrows hnd hg).filter fun r => decide (r.path ≠ .null)).length_eq,
    List.filter_filter]
  unfold observedAt
  congr 1
  refine List.filter_congr fun r _ => ?_
  by_cases hr : r.rank = g.id.rank <;> simp [hr]

theorem witnessRows_sorted (gs : List GroupWitness) :
    (witnessRows rowsOf gs).Pairwise fun r s => r.rank ≤ s.rank :=
  (Sql.orderBy_sorted _ _).imp fun h => by
    rcases (Prod.Lex.le_iff.1 h) with h | h
    · exact le_of_lt h
    · exact le_of_eq h.1

theorem find_group (hnd : (w.groups.map fun g => g.id.rank).Nodup) {g : GroupWitness}
    (hg : g ∈ w.groups) {k : Int} (hk : k = g.id.rank) :
    w.groups.find? (fun g' => decide (g'.id.rank = k)) = some g := by
  subst hk
  obtain ⟨gs₁, gs₂, hsplit⟩ := List.append_of_mem hg
  rw [hsplit, List.find?_append]
  have hfirst : gs₁.find? (fun g' => decide (g'.id.rank = g.id.rank)) = none := by
    refine List.find?_eq_none.2 fun g' hg' => ?_
    have hne : g'.id.rank ≠ g.id.rank := by
      rw [hsplit, List.map_append, List.nodup_append] at hnd
      exact hnd.2.2 _ (List.mem_map_of_mem hg') _ (by simp)
    simpa using hne
  rw [hfirst]; simp

/-- **What an accepted stream has judged.** -/
theorem stream_ok (hrows : RowsFor rowsOf) (hnd : (w.groups.map fun g => g.id.rank).Nodup)
    (hread : ∀ r a, read r = .ok a →
      readColumns (observedAt (witnessRows rowsOf w.groups) r.rank) r = .ok a)
    (h : streamWitnessedRanks w generation read (witnessRows rowsOf w.groups) = .ok ()) :
    ∀ g ∈ w.groups, (∀ r ∈ rowsOf g, ∃ a, read r = .ok a) ∧ Judged (rowsOf g) generation g := by
  intro g hg
  unfold streamWitnessedRanks at h
  split at h
  · cases h
  rename_i seen hloop
  obtain ⟨hruns, -⟩ := (RunLoop.loop_none_ok
    (L := witnessLoop read (checkWitnessedRank w.groups generation)) _
    (witnessRows_sorted w.groups)).1 hloop
  obtain ⟨r₀, hr₀⟩ := List.exists_mem_of_ne_nil _ (hrows.some_row g)
  obtain ⟨a, as, hreads, hclose⟩ := hruns g.id.rank (List.mem_map.2
    ⟨r₀, mem_witnessRows.2 ⟨g, hg, hr₀⟩, hrows.rank g r₀ hr₀⟩)
  have hmem : ∀ r, r ∈ (witnessLoop read (checkWitnessedRank w.groups generation)).run g.id.rank
      (witnessRows rowsOf w.groups) ↔ r ∈ rowsOf g := fun r => (run_perm hrows hnd hg).mem_iff
  have hreadAt : ∀ r ∈ rowsOf g, ∀ b, read r = .ok b →
      readColumns ((rowsOf g).filter fun r => decide (r.path ≠ .null)).length r = .ok b := by
    intro r hr b hb
    have := hread r b hb
    rwa [hrows.rank g r hr, observedAt_eq hrows hnd hg] at this
  have hread₁ : ∀ r ∈ rowsOf g, ∃ b ∈ a :: as, read r = .ok b :=
    fun r hr => exists_of_forall₂_left hreads r ((hmem r).2 hr)
  have hrow₁ : ∀ b ∈ a :: as, ∃ r ∈ rowsOf g, read r = .ok b := by
    intro b hb
    obtain ⟨r, hr, hb⟩ := exists_of_forall₂_right hreads b hb
    exact ⟨r, (hmem r).1 hr, hb⟩
  obtain ⟨r₁, hr₁, ha⟩ := hrow₁ a List.mem_cons_self
  have hcols := readColumns_ok.1 (hreadAt r₁ hr₁ a ha)
  change checkWitnessedRank w.groups generation
    ((a :: as).foldl WitnessedRank.push (WitnessedRank.start a)) = .ok () at hclose
  rw [foldl_push, checkWitnessedRank_ok] at hclose
  obtain ⟨group, hfind, hdigest, hdeclared, hobserved, hmembers, hlive⟩ := hclose
  simp only [WitnessedRank.start, List.nil_append] at hfind hdigest hdeclared hobserved hmembers hlive
  have hrank : a.rank = g.id.rank := hcols.2.2.2.2.1.trans (hrows.rank g r₁ hr₁)
  cases hfind.symm.trans (find_group hnd hg hrank)
  refine ⟨fun r hr => (hread₁ r hr).imp fun b hb => hb.2, ⟨r₁, hr₁, ?_, ?_⟩, ?_, ?_, ?_⟩
  · have hhash := hcols.1
    rw [hdigest, hcols.2.2.2.2.2.1, hrows.digest g r₁ hr₁] at hhash
    rcases getOptString_ok.1 hhash with ⟨-, ho⟩ | ⟨s, hs, ho⟩
    · cases ho
    · cases ho; exact hs
  · have hcount := hcols.2.1
    rw [hdeclared] at hcount
    rcases getOptInteger_ok.1 hcount with ⟨-, ho⟩ | ⟨n, hn, ho⟩
    · cases ho
    · cases ho; exact hn
  · rw [← hobserved, hcols.2.2.2.2.2.2.1]
  · intro r hr hp
    obtain ⟨b, hb, hrb⟩ := hread₁ r hr
    obtain ⟨-, -, hpath, hgen, -, -, -, hstate⟩ := readColumns_ok.1 (hreadAt r hr b hrb)
    rcases getOptText_ok.1 hpath with ⟨hv, -⟩ | ⟨text, htext, ho⟩
    · exact absurd hv hp
    have hm : (text, b.memberGeneration, b.digestState) ∈ (a :: as).filterMap ReadRow.member :=
      List.mem_filterMap.2 ⟨b, hb, by simp [ReadRow.member, ho]⟩
    obtain ⟨⟨p, hpm, hpt⟩, hgeneration, hwrong⟩ := memberRefusal_eq_none.1 (hmembers _ hm)
    refine ⟨⟨p, hpm, text, htext, hpt⟩, fun expected found he hf => ?_, hstate ▸ hwrong⟩
    refine hgeneration expected found he ?_
    rcases getOptInteger_ok.1 hgen with ⟨hv, -⟩ | ⟨n, hn, ho⟩
    · rw [hv] at hf; cases hf
    · rw [hn] at hf; cases hf; exact ho
  · intro p hp
    obtain ⟨m, hm, hpt⟩ := hlive p hp
    obtain ⟨b, hb, hbm⟩ := List.mem_filterMap.1 hm
    obtain ⟨r, hr, hrb⟩ := hrow₁ b hb
    obtain ⟨-, -, hpath, -⟩ := readColumns_ok.1 (hreadAt r hr b hrb)
    unfold ReadRow.member at hbm
    obtain ⟨text, ho, rfl⟩ := Option.map_eq_some_iff.1 hbm
    rw [ho] at hpath
    rcases getOptText_ok.1 hpath with ⟨-, h⟩ | ⟨text', htext, h⟩
    · cases h
    · cases h; exact ⟨r, hr, text, htext, hpt⟩

theorem card_ranks (hrows : RowsFor rowsOf) (hnd : (w.groups.map fun g => g.id.rank).Nodup) :
    ((witnessRows rowsOf w.groups).map WitnessRow.rank).toFinset.card = w.groups.length := by
  have hset : ((witnessRows rowsOf w.groups).map WitnessRow.rank).toFinset =
      (w.groups.map fun g => g.id.rank).toFinset := by
    ext k
    simp only [List.mem_toFinset, List.mem_map]
    constructor
    · rintro ⟨r, hr, rfl⟩
      obtain ⟨g, hg, hr⟩ := mem_witnessRows.1 hr
      exact ⟨g, hg, (hrows.rank g r hr).symm⟩
    · rintro ⟨g, hg, rfl⟩
      obtain ⟨r, hr⟩ := List.exists_mem_of_ne_nil _ (hrows.some_row g)
      exact ⟨r, mem_witnessRows.2 ⟨g, hg, hr⟩, hrows.rank g r hr⟩
  rw [hset, List.toFinset_card_of_nodup hnd, List.length_map]

theorem reads_exist {L : RunLoop WitnessRow ReadRow WitnessedRank Int LeaseRefusal}
    {rows : List WitnessRow} (h : ∀ r ∈ rows, ∃ a, L.read r = .ok a) : ∃ as, L.Reads rows as := by
  induction rows with
  | nil => exact ⟨[], .nil⟩
  | cons r rs ih =>
    obtain ⟨a, ha⟩ := h r List.mem_cons_self
    obtain ⟨as, has⟩ := ih fun s hs => h s (List.mem_cons_of_mem _ hs)
    exact ⟨a :: as, .cons ha has⟩

/-- One rank whose rows say what is witnessed passes its check. -/
theorem check_of_judged (hrows : RowsFor rowsOf) (hnd : (w.groups.map fun g => g.id.rank).Nodup)
    {g : GroupWitness} (hg : g ∈ w.groups) {n : Nat} {a : ReadRow} {as : List ReadRow}
    (hread : ∀ r ∈ rowsOf g, ∃ b ∈ a :: as, readColumns n r = .ok b)
    (hrow : ∀ b ∈ a :: as, ∃ r ∈ rowsOf g, readColumns n r = .ok b)
    (hn : n = g.members.length)
    (hsummary : ∀ r ∈ rowsOf g,
      getString r.hash = .ok g.digest ∧ r.fileCount = .integer g.members.length)
    (hj : Judged (rowsOf g) generation g) :
    checkWitnessedRank w.groups generation
      ((a :: as).foldl WitnessedRank.push (WitnessedRank.start a)) = .ok () := by
  rw [foldl_push, checkWitnessedRank_ok]
  simp only [WitnessedRank.start, List.nil_append]
  obtain ⟨r₁, hr₁, ha⟩ := hrow a List.mem_cons_self
  obtain ⟨hhash, hcount, -, -, hrank, hdigest, hobserved, -⟩ := readColumns_ok.1 ha
  obtain ⟨hs, hcells⟩ := hsummary r₁ hr₁
  refine ⟨g, find_group hnd hg (hrank.trans (hrows.rank g r₁ hr₁)), ?_, ?_, by rw [hobserved, hn],
    ?_, ?_⟩
  · rcases getOptString_ok.1 hhash with ⟨hv, -⟩ | ⟨s, hs', ho⟩
    · rw [hv] at hs; cases hs
    · rw [hs] at hs'; cases hs'
      rw [ho, hdigest, hrows.digest g r₁ hr₁]
  · rcases getOptInteger_ok.1 hcount with ⟨hv, -⟩ | ⟨k, hk, ho⟩
    · rw [hv] at hcells; cases hcells
    · rw [hcells] at hk; cases hk; exact ho
  · intro m hm
    obtain ⟨b, hb, hbm⟩ := List.mem_filterMap.1 hm
    obtain ⟨r, hr, hrb⟩ := hrow b hb
    obtain ⟨-, -, hpath, hgen, -, -, -, hstate⟩ := readColumns_ok.1 hrb
    unfold ReadRow.member at hbm
    obtain ⟨text, ho, rfl⟩ := Option.map_eq_some_iff.1 hbm
    rw [ho] at hpath
    have htext : getText r.path = .ok text := by
      rcases getOptText_ok.1 hpath with ⟨-, h⟩ | ⟨text', htext, h⟩
      · cases h
      · cases h; exact htext
    obtain ⟨⟨p, hp, text', htext', hpt⟩, hgeneration, hwrong⟩ :=
      hj.each r hr (by rw [(getText_ok.1 htext).1]; simp)
    rw [htext] at htext'; cases htext'
    refine memberRefusal_eq_none.2 ⟨⟨p, hp, hpt⟩, fun expected found he hf => ?_, hstate ▸ hwrong⟩
    refine hgeneration expected found he ?_
    rw [show b.memberGeneration = some found from hf] at hgen
    rcases getOptInteger_ok.1 hgen with ⟨-, h⟩ | ⟨k, hk, h⟩
    · cases h
    · cases h; exact hk
  · intro p hp
    obtain ⟨r, hr, text, htext, hpt⟩ := hj.all p hp
    obtain ⟨b, hb, hrb⟩ := hread r hr
    obtain ⟨-, -, hpath, -⟩ := readColumns_ok.1 hrb
    refine ⟨(text, b.memberGeneration, b.digestState), List.mem_filterMap.2 ⟨b, hb, ?_⟩, hpt⟩
    rcases getOptText_ok.1 hpath with ⟨hv, -⟩ | ⟨text', htext', ho⟩
    · rw [hv] at htext; cases htext
    · rw [htext] at htext'; cases htext'
      simp [ReadRow.member, ho]

/-- **Rows that read and say what is witnessed are accepted.** -/
theorem stream_of_judged (hrows : RowsFor rowsOf) (hnd : (w.groups.map fun g => g.id.rank).Nodup)
    (hread : ∀ g ∈ w.groups, ∀ r ∈ rowsOf g, ∃ a, read r = .ok a ∧
      readColumns (observedAt (witnessRows rowsOf w.groups) r.rank) r = .ok a)
    (hsummary : ∀ g ∈ w.groups, ∀ r ∈ rowsOf g,
      getString r.hash = .ok g.digest ∧ r.fileCount = .integer g.members.length)
    (hjudged : ∀ g ∈ w.groups, Judged (rowsOf g) generation g) :
    streamWitnessedRanks w generation read (witnessRows rowsOf w.groups) = .ok () := by
  have hcloses : ∀ k ∈ (witnessRows rowsOf w.groups).map WitnessRow.rank,
      (witnessLoop read (checkWitnessedRank w.groups generation)).Closes
        ((witnessLoop read (checkWitnessedRank w.groups generation)).run k
          (witnessRows rowsOf w.groups)) := by
    intro k hk
    obtain ⟨r, hr, rfl⟩ := List.mem_map.1 hk
    obtain ⟨g, hg, hrg⟩ := mem_witnessRows.1 hr
    rw [hrows.rank g r hrg]
    have hmem : ∀ r, r ∈ (witnessLoop read (checkWitnessedRank w.groups generation)).run g.id.rank
        (witnessRows rowsOf w.groups) ↔ r ∈ rowsOf g := fun r => (run_perm hrows hnd hg).mem_iff
    obtain ⟨as, has⟩ := reads_exist
      (L := witnessLoop read (checkWitnessedRank w.groups generation))
      fun r hr => (hread g hg r ((hmem r).1 hr)).imp fun a ha => ha.1
    have hcolumns : ∀ r ∈ rowsOf g, ∀ b, read r = .ok b →
        readColumns (observedAt (witnessRows rowsOf w.groups) g.id.rank) r = .ok b := by
      intro r hr b hb
      obtain ⟨c, hc, hcols⟩ := hread g hg r hr
      rw [hb] at hc; cases hc
      rwa [hrows.rank g r hr] at hcols
    cases as with
    | nil =>
      obtain ⟨a, ha, -⟩ := exists_of_forall₂_left has r ((hmem r).2 hrg)
      exact absurd ha List.not_mem_nil
    | cons a as =>
      refine ⟨a, as, has, check_of_judged hrows hnd hg
        (n := observedAt (witnessRows rowsOf w.groups) g.id.rank) ?_ ?_ ?_ (hsummary g hg)
        (hjudged g hg)⟩
      · intro r hr
        obtain ⟨b, hb, hrb⟩ := exists_of_forall₂_left has r ((hmem r).2 hr)
        exact ⟨b, hb, hcolumns r hr b hrb⟩
      · intro b hb
        obtain ⟨r, hr, hrb⟩ := exists_of_forall₂_right has b hb
        exact ⟨r, (hmem r).1 hr, hcolumns r ((hmem r).1 hr) b hrb⟩
      · rw [observedAt_eq hrows hnd hg, (hjudged g hg).count]
  have hloop : (witnessLoop read (checkWitnessedRank w.groups generation)).loop none 0
      (witnessRows rowsOf w.groups) = .ok w.groups.length :=
    (RunLoop.loop_none_ok (witnessRows rowsOf w.groups) (witnessRows_sorted w.groups)).2
      ⟨hcloses, by rw [Nat.zero_add]; exact (card_ranks hrows hnd).symm⟩
  unfold streamWitnessedRanks
  rw [hloop]; simp

end Stream

/-! ## The witness on its own -/

theorem preflightFrom_eq_none {w : PlanWitness} {gs : List GroupWitness} : ∀ {ranks : List Int},
    preflightFrom w ranks gs = none ↔
      (∀ g ∈ gs, g.id.scanId = w.scanId ∧ g.id.generation = w.generation ∧ 0 ≤ g.id.rank ∧
        g.id.rank ∉ ranks ∧ g.members ≠ []) ∧ (gs.map fun g => g.id.rank).Nodup := by
  induction gs with
  | nil => simp [preflightFrom]
  | cons g gs ih =>
    intro ranks
    unfold preflightFrom
    split
    · rename_i h; simp [h]
    rename_i hscan
    split
    · rename_i h; simp [h]
    rename_i hgeneration
    split
    · rename_i h; simp [Int.not_le.2 h]
    rename_i hrank
    split
    · rename_i h; simp [h]
    rename_i hnew
    split
    · rename_i h; simp [h]
    rename_i hmembers
    rw [ih, List.map_cons, List.nodup_cons]
    constructor
    · rintro ⟨hall, hnd⟩
      refine ⟨fun x hx => ?_, fun hmem => ?_, hnd⟩
      · rcases List.mem_cons.1 hx with rfl | hx
        · exact ⟨not_not.1 hscan, not_not.1 hgeneration, Int.not_lt.1 hrank, hnew, hmembers⟩
        · obtain ⟨h₁, h₂, h₃, h₄, h₅⟩ := hall x hx
          exact ⟨h₁, h₂, h₃, fun h => h₄ (List.mem_cons_of_mem _ h), h₅⟩
      · obtain ⟨x, hx, hxr⟩ := List.mem_map.1 hmem
        exact (hall x hx).2.2.2.1 (hxr ▸ List.mem_cons_self)
    · rintro ⟨hall, hg, hnd⟩
      refine ⟨fun x hx => ?_, hnd⟩
      obtain ⟨h₁, h₂, h₃, h₄, h₅⟩ := hall x (List.mem_cons_of_mem _ hx)
      refine ⟨h₁, h₂, h₃, fun h => ?_, h₅⟩
      rcases List.mem_cons.1 h with he | h
      · exact hg (he ▸ List.mem_map_of_mem hx)
      · exact h₄ h

theorem preflight_eq_none {w : PlanWitness} :
    preflight w = none ↔ w.groups ≠ [] ∧
      (∀ g ∈ w.groups, g.id.scanId = w.scanId ∧ g.id.generation = w.generation ∧ 0 ≤ g.id.rank ∧
        g.members ≠ []) ∧ (w.groups.map fun g => g.id.rank).Nodup := by
  unfold preflight
  split
  · rename_i h; simp [h]
  · rename_i h; simp [h, preflightFrom_eq_none]

/-! ## The statements -/

theorem mem_explicitRowsOf {t : ScanTables} {want : GroupWitness} {r : WitnessRow} :
    r ∈ explicitRowsOf t want ↔
      ∃ g ∈ Sql.outer (fun g => Value.same g.rank (.integer want.id.rank)) t.fileGroup,
      ∃ m ∈ Sql.outer (fun m => Value.same m.groupRank (.integer want.id.rank)) t.member,
      ∃ f ∈ Sql.outer (fun f => Value.same f.path (cellOf MemberRow.path m)) t.file,
        r = ⟨want.id.rank, want.digest, cellOf GroupRow.hash g, cellOf GroupRow.fileCount g,
          cellOf MemberRow.path m, cellOf MemberRow.generation m, f.isSome,
          digestState f (cellOf GroupRow.hash g)⟩ := by
  simp only [explicitRowsOf, List.mem_flatMap, List.mem_map, eq_comm]

theorem mem_derivedRowsOf {t : ScanTables} {want : GroupWitness} {r : WitnessRow} :
    r ∈ derivedRowsOf t want ↔
      ∃ g ∈ Sql.outer (fun g => Value.same g.rank (.integer want.id.rank)) t.fileGroup,
      ∃ f ∈ Sql.outer (fun f => Value.same f.hash (Sql.unhex (cellOf GroupRow.hash g))) t.file,
        r = ⟨want.id.rank, want.digest, cellOf GroupRow.hash g, cellOf GroupRow.fileCount g,
          cellOf FileRow.path f, .null, true, 6⟩ := by
  simp only [derivedRowsOf, List.mem_flatMap, List.mem_map, eq_comm]

theorem explicit_rowsFor (t : ScanTables) : RowsFor (explicitRowsOf t) where
  rank g r hr := by obtain ⟨_, -, _, -, _, -, rfl⟩ := mem_explicitRowsOf.1 hr; rfl
  digest g r hr := by obtain ⟨_, -, _, -, _, -, rfl⟩ := mem_explicitRowsOf.1 hr; rfl
  some_row want := by
    obtain ⟨g, hg⟩ := List.exists_mem_of_ne_nil _ (Sql.outer_ne_nil
      (fun g : GroupRow => Value.same g.rank (.integer want.id.rank)) t.fileGroup)
    obtain ⟨m, hm⟩ := List.exists_mem_of_ne_nil _ (Sql.outer_ne_nil
      (fun m : MemberRow => Value.same m.groupRank (.integer want.id.rank)) t.member)
    obtain ⟨f, hf⟩ := List.exists_mem_of_ne_nil _ (Sql.outer_ne_nil
      (fun f : FileRow => Value.same f.path (cellOf MemberRow.path m)) t.file)
    exact List.ne_nil_of_mem (mem_explicitRowsOf.2 ⟨g, hg, m, hm, f, hf, rfl⟩)

theorem derived_rowsFor (t : ScanTables) : RowsFor (derivedRowsOf t) where
  rank g r hr := by obtain ⟨_, -, _, -, rfl⟩ := mem_derivedRowsOf.1 hr; rfl
  digest g r hr := by obtain ⟨_, -, _, -, rfl⟩ := mem_derivedRowsOf.1 hr; rfl
  some_row want := by
    obtain ⟨g, hg⟩ := List.exists_mem_of_ne_nil _ (Sql.outer_ne_nil
      (fun g : GroupRow => Value.same g.rank (.integer want.id.rank)) t.fileGroup)
    obtain ⟨f, hf⟩ := List.exists_mem_of_ne_nil _ (Sql.outer_ne_nil
      (fun f : FileRow => Value.same f.hash (Sql.unhex (cellOf GroupRow.hash g))) t.file)
    exact List.ne_nil_of_mem (mem_derivedRowsOf.2 ⟨g, hg, f, hf, rfl⟩)

/-! ## What a grant says -/

/-- The pathname cells of a rank's current members. -/
def currentMembers (t : ScanTables) (mode : MembershipMode) (rank : Int) : List Value :=
  match mode with
  | .explicit => (t.membersAt (.integer rank)).map MemberRow.path
  | _ => (t.groupsAt (.integer rank)).flatMap fun g => (t.filesOf g.hash).map FileRow.path

/-- A manifest row carries the digest that a summary names. -/
def CarriesDigest (f : FileRow) (groupHash : Value) : Prop :=
  ∃ d, f.hash = .blob d ∧ d.length = 32 ∧ Sql.unhex groupHash = .blob d

/-- The current summary of a rank has the witnessed digest and count, its member pathnames are the
witnessed ones, and under explicit membership each of them is in the manifest under the group's own
digest. -/
structure RankAsWitnessed (t : ScanTables) (mode : MembershipMode) (g : GroupWitness) : Prop where
  summary : ∃ row ∈ t.groupsAt (.integer g.id.rank),
    getString row.hash = .ok g.digest ∧ row.fileCount = .integer g.members.length ∧
    (mode = .explicit → ∀ m ∈ t.membersAt (.integer g.id.rank), m.path ≠ .null →
      t.filesAt m.path ≠ [] ∧ ∀ f ∈ t.filesAt m.path, CarriesDigest f row.hash)
  named : ∀ v ∈ currentMembers t mode g.id.rank, v ≠ .null → ∃ p ∈ g.members, NamesPath v p
  members : ∀ p ∈ g.members, ∃ v ∈ currentMembers t mode g.id.rank, NamesPath v p

theorem carriesDigest_of_state {f : FileRow} {groupHash : Value}
    (h : wrongDigest (digestState (some f) groupHash) = none) : CarriesDigest f groupHash := by
  have hstate : digestState (some f) groupHash = 6 := by
    unfold digestState at h ⊢
    simp only at h ⊢
    split at h
    · cases h
    · split at h
      · cases h
      · rename_i hlen
        rw [if_neg hlen]
        split at h
        · split at h
          · cases h
          · rename_i hd; rw [if_neg hd]
        · cases h
    · cases h
  exact digestState_some.1 hstate

theorem cellOf_ne_null {β : Type} (column : β → Value) {o : Option β} (h : cellOf column o ≠ .null) :
    ∃ row, o = some row ∧ cellOf column o = column row := by
  cases o with
  | none => exact absurd rfl h
  | some row => exact ⟨row, rfl, rfl⟩

theorem NamesPath.ne_null {v : Value} {p : Path} (h : NamesPath v p) : v ≠ .null := by
  obtain ⟨b, hb, -⟩ := h
  rw [(getText_ok.1 hb).1]; simp

theorem explicit_granted {t : ScanTables} {w : PlanWitness} {generation : Int}
    (hnd : (w.groups.map fun g => g.id.rank).Nodup)
    (h : validateExplicitWitness t w generation = .ok ()) :
    ∀ g ∈ w.groups, RankAsWitnessed t .explicit g := by
  intro g hg
  obtain ⟨hreads, hj⟩ := stream_ok (explicit_rowsFor t) hnd
    (fun r a ha => (readExplicit_ok.1 ha).1) h g hg
  have hnamed : ∀ m ∈ t.membersAt (.integer g.id.rank), m.path ≠ .null →
      ∃ p ∈ g.members, NamesPath m.path p := by
    intro m hm hp
    obtain ⟨go, hgo⟩ := List.exists_mem_of_ne_nil _ (Sql.outer_ne_nil
      (fun g' : GroupRow => Value.same g'.rank (.integer g.id.rank)) t.fileGroup)
    obtain ⟨f, hf⟩ := List.exists_mem_of_ne_nil _ (Sql.outer_ne_nil
      (fun f : FileRow => Value.same f.path (cellOf MemberRow.path (some m))) t.file)
    exact (hj.each _ (mem_explicitRowsOf.2 ⟨go, hgo, some m,
      Sql.some_mem_outer.2 (List.mem_filter.1 hm), f, hf, rfl⟩) hp).1
  refine ⟨?_, ?_, ?_⟩
  · obtain ⟨r, hr, hdigest, hcount⟩ := hj.summary
    obtain ⟨go, hgo, mo, hmo, fo, hfo, rfl⟩ := mem_explicitRowsOf.1 hr
    simp only at hdigest hcount
    obtain ⟨row, rfl, -⟩ := cellOf_ne_null GroupRow.fileCount (o := go)
      fun hn => by rw [hn] at hcount; cases hcount
    refine ⟨row, List.mem_filter.2 (Sql.some_mem_outer.1 hgo), hdigest, hcount, fun _ m hm hp => ?_⟩
    have hrow : ∀ f ∈ Sql.outer (fun f : FileRow => Value.same f.path m.path) t.file,
        f.isSome = true ∧ wrongDigest (digestState f row.hash) = none := by
      intro f hf
      have hmem := mem_explicitRowsOf.2 ⟨some row, hgo, some m,
        Sql.some_mem_outer.2 (List.mem_filter.1 hm), f, hf, rfl⟩
      obtain ⟨a, ha⟩ := hreads _ hmem
      exact ⟨(readExplicit_ok.1 ha).2.1 hp, (hj.each _ hmem hp).2.2⟩
    have hfiles : t.filesAt m.path ≠ [] := by
      obtain ⟨f, hf⟩ := List.exists_mem_of_ne_nil _ (Sql.outer_ne_nil
        (fun f : FileRow => Value.same f.path m.path) t.file)
      obtain ⟨f', rfl⟩ := Option.isSome_iff_exists.1 (hrow f hf).1
      exact List.ne_nil_of_mem (List.mem_filter.2 (Sql.some_mem_outer.1 hf))
    refine ⟨hfiles, fun f hf => ?_⟩
    exact carriesDigest_of_state
      (hrow (some f) (Sql.some_mem_outer.2 (List.mem_filter.1 hf))).2
  · intro v hv hne
    obtain ⟨m, hm, rfl⟩ := List.mem_map.1 hv
    exact hnamed m hm hne
  · intro p hp
    obtain ⟨r, hr, hnames⟩ := hj.all p hp
    obtain ⟨go, hgo, mo, hmo, fo, hfo, rfl⟩ := mem_explicitRowsOf.1 hr
    obtain ⟨m, rfl, -⟩ := cellOf_ne_null MemberRow.path hnames.ne_null
    exact ⟨m.path, List.mem_map.2 ⟨m, List.mem_filter.2 (Sql.some_mem_outer.1 hmo), rfl⟩, hnames⟩

theorem derived_granted {t : ScanTables} {w : PlanWitness}
    (hnd : (w.groups.map fun g => g.id.rank).Nodup)
    (h : validateDerivedWitness t w = .ok ()) :
    ∀ g ∈ w.groups, RankAsWitnessed t .derived g := by
  intro g hg
  unfold validateDerivedWitness at h
  simp only at h
  split at h
  · cases h
  rename_i hstream
  obtain ⟨-, hj⟩ := stream_ok (derived_rowsFor t) hnd (fun r a ha => (readDerived_ok.1 ha).1)
    hstream g hg
  refine ⟨?_, ?_, ?_⟩
  · obtain ⟨r, hr, hdigest, hcount⟩ := hj.summary
    obtain ⟨go, hgo, fo, hfo, rfl⟩ := mem_derivedRowsOf.1 hr
    simp only at hdigest hcount
    obtain ⟨row, rfl, -⟩ := cellOf_ne_null GroupRow.fileCount (o := go)
      fun hn => by rw [hn] at hcount; cases hcount
    exact ⟨row, List.mem_filter.2 (Sql.some_mem_outer.1 hgo), hdigest, hcount,
      fun he => by cases he⟩
  · intro v hv hne
    obtain ⟨row, hrow, hv⟩ := List.mem_flatMap.1 hv
    obtain ⟨f, hf, rfl⟩ := List.mem_map.1 hv
    exact (hj.each _ (mem_derivedRowsOf.2 ⟨some row, Sql.some_mem_outer.2 (List.mem_filter.1 hrow),
      some f, Sql.some_mem_outer.2 (List.mem_filter.1 hf), rfl⟩) hne).1
  · intro p hp
    obtain ⟨r, hr, hnames⟩ := hj.all p hp
    obtain ⟨go, hgo, fo, hfo, rfl⟩ := mem_derivedRowsOf.1 hr
    obtain ⟨f, rfl, -⟩ := cellOf_ne_null FileRow.path hnames.ne_null
    obtain ⟨hfile, hon⟩ := Sql.some_mem_outer.1 hfo
    cases go with
    | none => rw [show Sql.unhex (cellOf GroupRow.hash none) = .null from rfl] at hon; simp at hon
    | some row =>
      exact ⟨f.path, List.mem_flatMap.2 ⟨row, List.mem_filter.2 (Sql.some_mem_outer.1 hgo),
        List.mem_map.2 ⟨f, List.mem_filter.2 ⟨hfile, hon⟩, rfl⟩⟩, hnames⟩

/-- **What a granted lease has found.** -/
theorem lease_granted {begin : Option LeaseRefusal} {db : Database} {w : PlanWitness}
    (h : acquireMembershipLease begin db w = .ok ()) :
    db.hasScan w.scanId = true ∧ ∃ mode generation m,
      (db.tables w.scanId).membership = some (mode, generation) ∧
      decodeAuthority mode generation = .ok (m, w.generation) ∧
      ∀ g ∈ w.groups, RankAsWitnessed (db.tables w.scanId) m g := by
  unfold acquireMembershipLease at h
  split at h
  · cases h
  rename_i hpreflight
  have hnd := (preflight_eq_none.1 hpreflight).2.2
  split at h
  · cases h
  unfold validateLeaseWitness at h
  split at h
  swap
  · cases h
  rename_i hscan
  simp only at h
  split at h
  · cases h
  rename_i mode generation hmembership
  split at h
  · cases h
  rename_i m g hdecode
  split at h
  · cases h
  rename_i hgeneration
  rw [not_not] at hgeneration
  subst hgeneration
  refine ⟨hscan, mode, generation, m, hmembership, hdecode, ?_⟩
  rcases (decodeAuthority_ok hdecode).1 with ⟨-, rfl⟩ | ⟨-, rfl⟩
  · exact derived_granted hnd h
  · exact explicit_granted hnd h

end DedupCommando
