import DedupCommando.Model.Completeness
import DedupCommando.Store.LedgerLifecycle

/-!
# A committed ledger loads as it was committed

* `cellsOf`, `storedCell` — the cells of a walk's map, and the row that stands for one.
* `insertAll_rows` — a commit that succeeds writes one row for a directory and a reason, each of
  them readable again.
* `readRows_ok` — such rows fold without overflow.
* `committed_builds` — after a commit the snapshot builds, every selected root is trusted, and
  its cells are the cells of the map.
-/

set_option autoImplicit false

namespace DedupCommando

open OmissionLedger

/-! ## Rows and cells -/

/-- The cells of one walk's map, root by root. -/
def cellsOf (perRoot : OrdMap PathKey OmissionCounts) : List OmissionCell :=
  perRoot.entries.flatMap fun e => e.2.iter.map fun c => ⟨e.1, c.1, c.2.1, c.2.2⟩

/-- The row that a commit writes for a cell. -/
def storedCell (generation : Int) (c : OmissionCell) : StoredOmission :=
  ⟨c.root.asStr, c.directory.asStr, c.reason.asStr, c.count.get, generation⟩

theorem storedRows_cellsOf (generation : Int) (perRoot : OrdMap PathKey OmissionCounts) :
    (perRoot.entries.flatMap fun e => storedRows e.1 generation e.2.iter) =
      (cellsOf perRoot).map (storedCell generation) := by
  unfold cellsOf storedRows
  rw [List.map_flatMap]
  simp only [List.map_map]
  rfl

theorem mem_cellsOf {perRoot : OrdMap PathKey OmissionCounts} {c : OmissionCell} :
    c ∈ cellsOf perRoot ↔ ∃ counts, perRoot.get? c.root = some counts ∧
      (c.directory, c.reason, c.count) ∈ counts.iter := by
  unfold cellsOf
  simp only [List.mem_flatMap, List.mem_map]
  constructor
  · rintro ⟨⟨root, counts⟩, he, cell, hcell, rfl⟩
    exact ⟨counts, OrdMap.mem_entries.1 he, hcell⟩
  · rintro ⟨counts, hget, hcell⟩
    exact ⟨(c.root, counts), OrdMap.mem_entries.2 hget, _, hcell, rfl⟩

/-- The primary key of the omission table. -/
def OneRowEach (rows : List StoredOmission) : Prop :=
  rows.Pairwise fun a b => ¬(a.dirKey = b.dirKey ∧ a.reason = b.reason)

theorem toI64_ok {c : EventCount} {n : Int} (h : c.toI64 = .ok n) :
    n = (c.get : Int) ∧ c.get < 2 ^ 63 := by
  unfold EventCount.toI64 at h
  split at h
  · rename_i hfits
    cases h
    exact ⟨rfl, hfits⟩
  · cases h

theorem insertCounts_rows {root : PathKey} {generation : Int} :
    ∀ {cells : List (PathKey × OmissionReason × EventCount)} {l l' : OmissionLedger},
      insertCounts root generation cells l = (.ok (), l') → OneRowEach l.omissions →
      OneRowEach l'.omissions ∧ ∀ c ∈ cells, c.2.2.get < 2 ^ 63
  | [], l, l', h, hrows => by
    cases h
    exact ⟨hrows, fun _ hc => absurd hc List.not_mem_nil⟩
  | (directory, reason, count) :: rest, l, l', h, hrows => by
    unfold insertCounts at h
    split at h
    · cases h
    · rename_i events hevents
      split at h
      · cases h
      · rename_i hnew
        have hstep : OneRowEach (l.omissions ++
            [⟨root.asStr, directory.asStr, reason.asStr, events, generation⟩]) := by
          refine List.pairwise_append.2 ⟨hrows, List.pairwise_singleton _ _, fun a ha b hb hsame => ?_⟩
          obtain rfl := List.mem_singleton.1 hb
          exact hnew (List.any_eq_true.2 ⟨a, ha, decide_eq_true hsame⟩)
        obtain ⟨hrows', hfits⟩ := insertCounts_rows h hstep
        exact ⟨hrows', List.forall_mem_cons.2 ⟨(toI64_ok hevents).2, hfits⟩⟩

/-- **What a commit writes is one row for each directory and reason, and a count that fits.** -/
theorem insertAll_rows {generation : Int} :
    ∀ {perRoot : List (PathKey × OmissionCounts)} {l l' : OmissionLedger},
      insertAll generation perRoot l = (.ok (), l') → OneRowEach l.omissions →
      OneRowEach l'.omissions ∧ ∀ e ∈ perRoot, ∀ c ∈ e.2.iter, c.2.2.get < 2 ^ 63
  | [], l, l', h, hrows => by
    cases h
    exact ⟨hrows, fun _ he => absurd he List.not_mem_nil⟩
  | (root, counts) :: rest, l, l', h, hrows => by
    unfold insertAll at h
    split at h
    · cases h
    · rename_i l₁ hcounts
      obtain ⟨hrows₁, hfits⟩ := insertCounts_rows hcounts hrows
      obtain ⟨hrows', hrest⟩ := insertAll_rows h hrows₁
      exact ⟨hrows', List.forall_mem_cons.2 ⟨hfits, hrest⟩⟩

/-! ## Reading the rows back -/

theorem decodeRow_stored {generations : OrdMap PathKey Int} {generation : Int} {c : OmissionCell}
    (hgeneration : generations.get? c.root = some generation) (hpos : 0 < generation)
    (hunder : c.directory.isAtOrUnder c.root = true) (hfits : c.count.get < 2 ^ 63) :
    decodeRow generations (storedCell generation c) = .ok (some c) := by
  have hcount : EventCount.fromI64 (c.count.get : Int) = .ok c.count :=
    EventCount.fromI64_toI64 (by rw [EventCount.toI64, if_pos hfits])
  unfold decodeRow storedCell
  simp [PathKey.fromStored_asStr, hgeneration, hpos, hunder, OmissionReason.parse_asStr, hcount]

/-- A sentinel that is there already comes from a cell before. -/
theorem addSentinel_total {before : List OmissionCell}
    {rows : OrdMap Bytes (PathKey × OmissionSummary)} {sentinels : OrdMap PathKey EventCount}
    {c : OmissionCell} (hold : RowsHold before rows sentinels)
    (hnew : ∀ b ∈ before, ¬(b.directory = c.directory ∧ b.reason = c.reason)) :
    ∃ sentinels', addSentinel sentinels c = .ok sentinels' := by
  unfold addSentinel
  split
  · rename_i hcell
    cases hget : sentinels.get? c.root with
    | none => exact ⟨_, rfl⟩
    | some existing =>
      have htally := hold.sentinel c.root
      rw [hget, Option.elim_some] at htally
      obtain ⟨b, hb, hP⟩ := tally_pos.1 (htally ▸ existing.pos)
      simp only [Bool.and_eq_true, decide_eq_true_eq] at hP
      obtain ⟨⟨hreason, hdir⟩, hroot⟩ := hP
      refine absurd ⟨?_, hreason.trans hcell.1.symm⟩ (hnew b hb)
      rw [hdir, hroot, hcell.2]
  · exact ⟨_, rfl⟩

theorem addCell_total {before : List OmissionCell}
    {rows : OrdMap Bytes (PathKey × OmissionSummary)} {sentinels : OrdMap PathKey EventCount}
    {c : OmissionCell} (hold : RowsHold before rows sentinels)
    (hnew : ∀ b ∈ before, ¬(b.directory = c.directory ∧ b.reason = c.reason)) :
    ∃ rows', addCell rows c = .ok rows' := by
  have hzero : (rows.get? c.directory.asStr).elim 0 (fun stored => stored.2.count c.reason) = 0 := by
    have hsum := hold.sum (fun s => decide (s = c.directory.asStr)) c.reason
    simp only [decide_eq_true_eq, PathKey.asStr_injective.eq_iff] at hsum
    rw [← rows.sum_single c.directory.asStr fun stored => stored.2.count c.reason, hsum,
      tally_eq_zero]
    intro b hb
    simpa using fun hdir hreason => hnew b hb ⟨hdir, hreason⟩
  unfold addCell
  simp only
  generalize hslot : (rows.get? c.directory.asStr).getD (c.root, .default) = slot
  cases hadd : slot.2.add c.reason c.count with
  | ok summary => exact ⟨_, rfl⟩
  | error e =>
    have hover := OmissionSummary.add_error hadd
    have hcount : slot.2.count c.reason = 0 := by
      rw [← hslot]
      cases hget : rows.get? c.directory.asStr with
      | none => rfl
      | some stored =>
        rw [hget] at hzero
        exact hzero
    have := c.count.fits
    omega

/-- Rows that decode to different cells fold without an error. -/
theorem readRows_ok {generations : OrdMap PathKey Int} {generation : Int} :
    ∀ {cells before : List OmissionCell} {rows : OrdMap Bytes (PathKey × OmissionSummary)}
      {sentinels : OrdMap PathKey EventCount}, RowsHold before rows sentinels →
      (∀ c ∈ cells, decodeRow generations (storedCell generation c) = .ok (some c)) →
      (before ++ cells).Pairwise (fun a b => ¬(a.directory = b.directory ∧ a.reason = b.reason)) →
      ∃ out, readRows generations (cells.map (storedCell generation)) rows sentinels = .ok out
  | [], _, rows, sentinels, _, _, _ => ⟨(rows, sentinels), rfl⟩
  | c :: cells, before, rows, sentinels, hold, hdecode, hdistinct => by
    obtain ⟨hc, hrest⟩ := List.forall_mem_cons.1 hdecode
    have hnew : ∀ b ∈ before, ¬(b.directory = c.directory ∧ b.reason = c.reason) :=
      fun b hb => (List.pairwise_append.1 hdistinct).2.2 b hb c List.mem_cons_self
    obtain ⟨sentinels₁, hs⟩ := addSentinel_total hold hnew
    obtain ⟨rows₁, hr⟩ := addCell_total hold hnew
    rw [List.append_cons] at hdistinct
    obtain ⟨out, hout⟩ := readRows_ok (hold.add hs hr) hrest hdistinct
    refine ⟨out, ?_⟩
    rw [List.map_cons]
    unfold readRows
    simp only [hc, hs, hr, hout]

/-- Registered rows of one generation read as a map from their keys to it. -/
theorem readGenerations_ok {generation : Int} (hpos : 0 ≤ generation) :
    ∀ {keys : List PathKey} {acc : OrdMap PathKey Int},
      ∃ out, readGenerations (keys.map fun k => (k.asStr, generation)) acc = .ok out ∧
        ∀ k, out.get? k = if k ∈ keys then some generation else acc.get? k
  | [], acc => ⟨acc, rfl, fun k => by simp⟩
  | key :: keys, acc => by
    obtain ⟨out, hout, hget⟩ := @readGenerations_ok generation hpos keys (acc.insert key generation)
    refine ⟨out, ?_, fun k => ?_⟩
    · rw [List.map_cons]
      unfold readGenerations
      rw [if_neg (by omega), PathKey.fromStored_asStr]
      exact hout
    · rw [hget, OrdMap.get?_insert]
      by_cases hk : k = key <;> simp [hk]

/-! ## What a commit leaves -/

theorem maxOrZero_nonneg {generations : List Int} (h : ∀ g ∈ generations, 0 ≤ g) :
    0 ≤ maxOrZero generations := by
  unfold maxOrZero
  cases hmax : generations.max? with
  | none => simp
  | some g => exact h g (List.max?_mem hmax)

theorem decodeRoots_nonneg :
    ∀ {raws : List (Bytes × Int)} {out : List (PathKey × Int)}, decodeRoots raws = .ok out →
      ∀ e ∈ raws, 0 ≤ e.2
  | [], _, _ => fun _ h => absurd h List.not_mem_nil
  | (raw, generation) :: rest, out, h => by
    unfold decodeRoots at h
    split at h
    · cases h
    · rename_i hpos
      split at h
      · cases h
      · split at h
        · cases h
        · rename_i out' hrest
          refine List.forall_mem_cons.2 ⟨?_, decodeRoots_nonneg hrest⟩
          show 0 ≤ generation
          omega

/-- The generation of a commit is positive. -/
theorem nextGeneration_pos {l : OmissionLedger} {stored : List (PathKey × Int)} {generation : Int}
    (hstored : l.registeredRoots = .ok stored) (h : l.nextGeneration = .ok generation) :
    0 < generation := by
  have hroots : 0 ≤ maxOrZero (l.roots.map Prod.snd) := by
    refine maxOrZero_nonneg fun g hg => ?_
    obtain ⟨e, he, rfl⟩ := List.mem_map.1 hg
    exact decodeRoots_nonneg hstored e
      ((List.perm_insertionSort (fun a b : Bytes × Int => a.1 ≤ b.1) l.roots).mem_iff.2 he)
  unfold nextGeneration at h
  simp only at h
  split at h
  · cases h
    omega
  · cases h

/-- Every registered row is the spelling of a key. -/
theorem registered_names {l : OmissionLedger} {stored : List (PathKey × Int)}
    (h : l.registeredRoots = .ok stored) :
    ∃ names : List PathKey, l.roots.map Prod.fst = names.map PathKey.asStr ∧
      ∀ k, k ∈ names ↔ k ∈ stored.map Prod.fst := by
  have hspelled : ∀ raw ∈ l.roots.map Prod.fst, ∃ k : PathKey, k.asStr = raw := by
    intro raw hraw
    obtain ⟨⟨raw, g⟩, he, rfl⟩ := List.mem_map.1 hraw
    obtain ⟨k, -, hk⟩ := (registeredRoots_ok h).1 he
    exact ⟨k, hk⟩
  obtain ⟨names, hnames⟩ : ∃ names : List PathKey, names.map PathKey.asStr = l.roots.map Prod.fst :=
    (Set.range_list_map PathKey.asStr).ge hspelled
  refine ⟨names, hnames.symm, fun k => ?_⟩
  have hraw : k ∈ names ↔ k.asStr ∈ l.roots.map Prod.fst := by
    rw [← hnames, List.mem_map_of_injective PathKey.asStr_injective]
  rw [hraw, List.mem_map, List.mem_map]
  constructor
  · rintro ⟨⟨raw, g⟩, he, hk⟩
    obtain ⟨k', hk', hs⟩ := (registeredRoots_ok h).1 he
    exact ⟨(k', g), hk', PathKey.asStr_injective (hs.trans hk)⟩
  · rintro ⟨⟨k', g⟩, hk', rfl⟩
    exact ⟨(k'.asStr, g), (registeredRoots_ok h).2 ⟨k', hk', rfl⟩, rfl⟩

theorem commitOmissions_rows {scanId : Int} {l l' : OmissionLedger}
    {perRoot : OrdMap PathKey OmissionCounts}
    (h : commitOmissions scanId perRoot l = (.ok (), l')) :
    OneRowEach l'.omissions ∧ (∀ c ∈ cellsOf perRoot, c.count.get < 2 ^ 63) ∧
      l.config ≠ some [] := by
  unfold commitOmissions at h
  split at h
  · cases h
  rename_i hrefusal
  split at h
  · cases h
  split at h
  · cases h
  rename_i l₁ hinsert
  cases h
  obtain ⟨hrows, hfits⟩ := insertAll_rows hinsert (by
    show OneRowEach (l.deleteLedger .wholeScan).omissions
    simp [deleteLedger, ClearScope.covers, OneRowEach])
  refine ⟨hrows, fun c hc => ?_, fun hempty => ?_⟩
  · obtain ⟨counts, hget, hcell⟩ := mem_cellsOf.1 hc
    exact hfits _ (OrdMap.mem_entries.2 hget) _ hcell
  · unfold commitRefusal persistedRootKeys at hrefusal
    simp [hempty] at hrefusal

/-- **A committed ledger loads, and loads as it was committed**: the snapshot builds, every
selected root is trusted, and the cells it reads are those of the map that was committed. -/
theorem committed_builds {scanId : Int} {l l' : OmissionLedger} {configured : List Path}
    {perRoot : OrdMap PathKey OmissionCounts} (hconfig : l.config = some configured)
    (h : commitOmissions scanId perRoot l = (.ok (), l')) :
    ∃ keys snap, rootKeys configured = .ok keys ∧
      CompletenessSnapshot.build configured l'.roots l'.omissions = .ok (.bounded snap) ∧
      snap.configured.Perm keys ∧ snap.fullyAuthoritative = true ∧
      (∀ root ∈ keys, snap.trustedRoot root = true) ∧
      currentCells snap.registered l'.omissions = cellsOf perRoot := by
  obtain ⟨⟨configured', keys, stored, hconfig', hkeys, hstored, hsets⟩, hinside,
    ⟨generation, hgeneration, hroots, homissions⟩, -⟩ := commitOmissions_ok h
  obtain rfl := Option.some.inj (hconfig.symm.trans hconfig')
  obtain ⟨hone, hfits, hnonempty⟩ := commitOmissions_rows h
  have hpos := nextGeneration_pos hstored hgeneration
  obtain ⟨names, hspelled, hregisteredKeys⟩ := registered_names hstored
  have hnames : l'.roots = names.map fun k => (k.asStr, generation) := by
    have := congrArg (List.map fun raw => (raw, generation)) hspelled
    rw [List.map_map, List.map_map] at this
    exact hroots.trans this
  have hmem : ∀ k, k ∈ names ↔ k ∈ keys := fun k => (hregisteredKeys k).trans (hsets k).1.symm
  obtain ⟨generations, hread, hget⟩ :=
    @readGenerations_ok generation hpos.le names .empty
  have hcells : l'.omissions = (cellsOf perRoot).map (storedCell generation) := by
    rw [homissions, storedRows_cellsOf]
  have hdecode : ∀ c ∈ cellsOf perRoot,
      decodeRow generations (storedCell generation c) = .ok (some c) := by
    intro c hc
    obtain ⟨counts, hcounts, hcell⟩ := mem_cellsOf.1 hc
    have hroot : c.root ∈ keys := by
      rw [(hsets c.root).2, ← OrdMap.contains_iff, OrdMap.contains, hcounts]
      rfl
    refine decodeRow_stored ?_ hpos (hinside _ _ hcounts _ hcell) (hfits c hc)
    rw [hget, if_pos ((hmem c.root).2 hroot)]
  have hdistinct : (cellsOf perRoot).Pairwise fun a b =>
      ¬(a.directory = b.directory ∧ a.reason = b.reason) := by
    rw [hcells, OneRowEach, List.pairwise_map] at hone
    refine hone.imp fun hab hsame => hab ?_
    simp [storedCell, hsame]
  obtain ⟨⟨summaries, sentinels⟩, hrows⟩ := readRows_ok RowsHold.nil hdecode hdistinct
  have hne : configured ≠ [] := fun he => hnonempty (he ▸ hconfig)
  have hsorted : (keys.insertionSort (· ≤ ·)).Perm keys := List.perm_insertionSort _ _
  have hkeysOf : ∀ k, k ∈ generations.keys ↔ k ∈ keys := by
    intro k
    rw [← OrdMap.contains_iff, OrdMap.contains, hget, ← hmem k]
    by_cases hk : k ∈ names <;> simp [hk]
  have hagrees : (decide (generations.entries.length = (keys.insertionSort (· ≤ ·)).length) &&
      (keys.insertionSort (· ≤ ·)).all fun root => generations.contains root) = true := by
    have hp : generations.keys.Perm keys :=
      (List.perm_ext_iff_of_nodup generations.keys_nodup (rootKeys_apart hkeys).2).2 hkeysOf
    rw [Bool.and_eq_true, decide_eq_true_eq, List.all_eq_true]
    refine ⟨?_, fun root hroot => OrdMap.contains_iff.2 ((hkeysOf root).2 (hsorted.mem_iff.1 hroot))⟩
    rw [hsorted.length_eq, ← hp.length_eq, OrdMap.keys, List.length_map]
  refine ⟨keys, ⟨keys.insertionSort (· ≤ ·), generations, summaries, sentinels, true⟩, hkeys, ?_,
    hsorted, ?_, ?_, ?_⟩
  · unfold CompletenessSnapshot.build
    rw [if_neg hne, hkeys]
    simp only [hnames, hread, hcells, hrows, hagrees]
  · unfold CompletenessSnapshot.fullyAuthoritative
    simp only [Bool.true_and, List.all_eq_true, decide_eq_true_eq]
    intro g hg
    obtain ⟨k, hk⟩ := OrdMap.mem_values.1 hg
    rw [hget] at hk
    split at hk
    · cases hk; exact hpos
    · cases hk
  · intro root hroot
    unfold CompletenessSnapshot.trustedRoot
    simp only [Bool.true_and, decide_eq_true_eq]
    rw [hget, if_pos ((hmem root).2 hroot)]
    exact hpos
  · unfold currentCells
    rw [hcells, List.filterMap_map]
    rw [List.filterMap_congr (g := some) fun c hc => by simp [hdecode c hc], List.filterMap_some]

end DedupCommando
