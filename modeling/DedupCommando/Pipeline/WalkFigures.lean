import DedupCommando.Pipeline.WalkComplete

/-!
# The figures of a walk

* `walkEvents_count` — entries left out for one reason are so many events of it, and the directories
  passed over so many walk errors.
* `finish_ok`, `walk_publishes` — a walk of fewer items than a stored count can hold publishes its
  account.
* `walk_figures` — the totals of the scan and the verdicts of its directories count every
  omission once.
-/

set_option autoImplicit false

namespace DedupCommando

variable {walker : Walker} {config : WalkConfig} {ownDatabase : List (Nat × Nat)}
  {cancel : Nat → Bool}

/-! ## Entries and events -/

/-- The entries that are left out for one reason. -/
def leftOutFor (config : WalkConfig) (ownDatabase : List (Nat × Nat)) (r : OmissionReason)
    (item : WalkItem) : Bool :=
  decide ((leftOut config ownDatabase item).map WalkEvent.reason = some r)

/-- The directories without their identity that the walk passed over: a later entry or the end
    settled them. -/
def passedOver : Option Unverified → List WalkItem → Nat
  | waiting, [] => waiting.toList.length
  | waiting, item :: rest =>
    (settledBy waiting item).toList.length + passedOver (waitsAfter waiting item) rest

theorem countP_settledBy (waiting : Option Unverified) (item : WalkItem) (r : OmissionReason) :
    (settledBy waiting item).toList.countP (fun e => decide (e.reason = r)) =
      if r = .walkError then (settledBy waiting item).toList.length else 0 := by
  cases item with
  | error err => simp [settledBy]
  | ok entry =>
    cases waiting with
    | none => simp [settledBy]
    | some u => simp [settledBy, WalkEvent.reason, eq_comm]

/-- **Each entry left out for a reason is one event of it**, and each directory passed over is one
walk error. -/
theorem walkEvents_count (r : OmissionReason) :
    ∀ (items : List WalkItem) (waiting : Option Unverified),
      (walkEvents config ownDatabase waiting items).countP (fun e => decide (e.reason = r)) =
        items.countP (leftOutFor config ownDatabase r) +
          if r = .walkError then passedOver waiting items else 0
  | [], waiting => by
    cases waiting with
    | none => simp [walkEvents, passedOver]
    | some u => simp [walkEvents, passedOver, WalkEvent.reason, eq_comm]
  | item :: rest, waiting => by
    have hown : (leftOut config ownDatabase item).toList.countP (fun e => decide (e.reason = r)) =
        if leftOutFor config ownDatabase r item = true then 1 else 0 := by
      unfold leftOutFor
      cases leftOut config ownDatabase item <;> simp
    rw [walkEvents, itemEvents, List.countP_append, List.countP_append, countP_settledBy, hown,
      walkEvents_count r rest, List.countP_cons, passedOver]
    split <;> omega

/-- What is left out as a walk error is an error of the iterator. -/
theorem leftOutFor_walkError (item : WalkItem) :
    leftOutFor config ownDatabase .walkError item = !item.isOk := by
  cases item with
  | error err => rfl
  | ok entry =>
    refine decide_eq_false fun h => ?_
    unfold leftOut at h
    simp only at h
    split at h
    · split at h
      · rename_i reason hjudge
        cases h
        exact judgeFile_reason hjudge
      · cases h
    · cases h
    · cases h

/-- The directories that the walks of these roots passed over. -/
def passedOverIn (walker : Walker) (roots : List (Path × PathKey)) : Nat :=
  (roots.map fun root => passedOver none (walker.items [root.1])).sum

/-! ## Publication -/

theorem length_rootEvents_le (roots : List (Path × PathKey)) :
    (roots.flatMap (rootEvents walker config ownDatabase)).length ≤
      (rootItems walker roots).length := by
  induction roots with
  | nil => simp [rootItems]
  | cons root roots ih =>
    have hroot := @length_walkEvents_le config ownDatabase
      (walker.items [root.1]) none
    rw [rootItems, List.flatMap_cons, List.flatMap_cons, List.length_append, List.length_append,
      rootEvents, List.length_map]
    unfold rootItems at ih
    simp only [Option.toList_none, List.length_nil, Nat.add_zero] at hroot
    omega

/-- A collector without a failure whose counts all fit its column is published. -/
theorem finish_ok {c : Collector} (hok : c.failure = none)
    (hfits : countsOf c.perRoot (fun _ _ _ => true) < 2 ^ 63) : c.finish = .publishable c.perRoot := by
  have hstorable : c.notStorable = none := by
    unfold Collector.notStorable
    rw [List.findSome?_eq_none_iff]
    intro e he
    rw [List.findSome?_eq_none_iff]
    rintro ⟨directory, reason, count⟩ hcell
    have hmem : (⟨e.1, directory, reason, count⟩ : OmissionCell) ∈ cellsOf c.perRoot :=
      mem_cellsOf.2 ⟨e.2, OrdMap.mem_entries.1 he, hcell⟩
    have hle : count.get ≤ countsOf c.perRoot fun _ _ _ => true := by
      unfold countsOf tally
      exact List.le_sum_of_mem (List.mem_map.2 ⟨_, hmem, by simp⟩)
    have hcount : count.toI64 = .ok (count.get : Int) := by
      unfold EventCount.toI64
      rw [if_pos (by omega)]
    simp only [hcount]
  unfold Collector.finish
  rw [hok, hstorable]

/-- **A finished walk over keyed roots publishes its account**, as long as its items are fewer
than a stored count can say. -/
theorem walk_publishes {files : List WalkedFile} {omissions : OmissionSnapshot}
    {keys : List PathKey} (hkeys : rootKeys config.roots = .ok keys)
    (hwalk : walkCollecting walker config ownDatabase cancel = .ok (.finished files omissions))
    (hfew : (rootItems walker (config.roots.zip keys)).length < 2 ^ 63) :
    ∃ perRoot, omissions = .publishable perRoot := by
  obtain ⟨state, hstate, -, rfl⟩ := walkCollecting_keyed hkeys hwalk
  obtain ⟨hcollector, -⟩ := walkRoots_ok hstate
  have hlength := @length_rootEvents_le walker config ownDatabase (config.roots.zip keys)
  have hok : state.collector.failure = none := by
    rw [hcollector]
    refine Collector.recordAll_failure rfl (fun e he => ?_) ?_
    · obtain ⟨root, hroot, he⟩ := List.mem_flatMap.1 he
      obtain ⟨ev, -, rfl⟩ := List.mem_map.1 he
      exact Collector.mem_new_keys.2 (mem_zip_keys hroot)
    · rw [Collector.countsOf_new]
      omega
  refine ⟨state.collector.perRoot, finish_ok hok ?_⟩
  have hcounts := (Collector.recordAll_tally (hcollector ▸ hok)).2.2 fun _ _ _ => true
  rw [hcollector, hcounts, Collector.countsOf_new, List.countP_true]
  omega

/-! ## Totals and verdicts -/

namespace CommittedWalk

variable {files : List WalkedFile} {keys : List PathKey} {perRoot : OrdMap PathKey OmissionCounts}
  {snap : CompletenessSnapshot}

/-- The cells of one reason count the events of it. -/
theorem tally_reason (w : CommittedWalk walker config ownDatabase files keys perRoot snap)
    (r : OmissionReason) :
    (tally (cellsOf perRoot) fun c => decide (c.reason = r)) =
      ((config.roots.zip keys).flatMap (rootEvents walker config ownDatabase)).countP
        fun e => decide (e.2.2 = r) :=
  w.counts fun _ _ r' => decide (r' = r)

/-- The totals of the scan, when they fit. -/
theorem totals_eq (w : CommittedWalk walker config ownDatabase files keys perRoot snap)
    (hfew : (rootItems walker (config.roots.zip keys)).length < 2 ^ 63) :
    ∃ totals, snap.scanAccounting = .ok (.exact totals) ∧ ∀ r, totals.count r =
      ((config.roots.zip keys).flatMap (rootEvents walker config ownDatabase)).countP
        fun e => decide (e.2.2 = r) := by
  have hacc := w.built.accounting_eq w.authority
  cases h : snap.scanAccounting with
  | error e =>
    rw [h] at hacc
    obtain ⟨r, hr⟩ := hacc
    rw [w.tally_reason] at hr
    have hle := List.countP_le_length (p := fun e : PathKey × PathKey × OmissionReason =>
      decide (e.2.2 = r)) (l := (config.roots.zip keys).flatMap (rootEvents walker config ownDatabase))
    have := @length_rootEvents_le walker config ownDatabase (config.roots.zip keys)
    omega
  | ok accounting =>
    rw [h] at hacc
    cases accounting with
    | unavailable => exact hacc.elim
    | exact totals => exact ⟨totals, rfl, fun r => (hacc r).trans (w.tally_reason r)⟩

/-- The events of a reason, over all roots, are the entries left out for it; with the directories
passed over, where they are the walk errors. -/
theorem events_of_reason (r : OmissionReason) (roots : List (Path × PathKey)) :
    (roots.flatMap (rootEvents walker config ownDatabase)).countP (fun e => decide (e.2.2 = r)) =
      (rootItems walker roots).countP (leftOutFor config ownDatabase r) +
        if r = .walkError then passedOverIn walker roots else 0 := by
  induction roots with
  | nil => simp [passedOverIn, rootItems]
  | cons root roots ih =>
    have hown : (rootEvents walker config ownDatabase root).countP (fun e => decide (e.2.2 = r)) =
        (walkEvents config ownDatabase none (walker.items [root.1])).countP
          fun e => decide (e.reason = r) := by
      rw [rootEvents, List.countP_map]
      rfl
    unfold rootItems passedOverIn at ih ⊢
    rw [List.flatMap_cons, List.flatMap_cons, List.countP_append, List.countP_append, ih, hown,
      walkEvents_count, List.map_cons, List.sum_cons]
    split <;> omega

end CommittedWalk

/-- What a verdict says when a directory has `count` of each reason. -/
def Says (count : OmissionReason → Nat) : Except String DirCompleteness → Prop
  | .ok .complete => ∀ r, count r = 0
  | .ok (.incomplete s) => (∃ r, 0 < count r) ∧ ∀ r, s.count r = count r
  | _ => False

/-- **Every omission of a finished walk is counted, once.** Its account is published; once it is
committed the totals of the scan are exact, with every entry that was left out for a reason in the
figure of that reason, and every error of the iterator and every directory that was passed over
among the walk errors; and the verdict of every directory below `/` counts the events at or under
it, with the walk errors of the whole root for a directory below the root. -/
theorem walk_figures {files : List WalkedFile} {omissions : OmissionSnapshot}
    {keys : List PathKey} (hkeys : rootKeys config.roots = .ok keys)
    (hwalk : walkCollecting walker config ownDatabase cancel = .ok (.finished files omissions))
    (hfew : (rootItems walker (config.roots.zip keys)).length < 2 ^ 63) :
    ∃ perRoot, omissions = .publishable perRoot ∧ ∀ (scanId : Int) (l l' : OmissionLedger),
      l.config = some config.roots →
      OmissionLedger.commitOmissions scanId perRoot l = (.ok (), l') →
      ∃ snap, CompletenessSnapshot.build config.roots l'.roots l'.omissions = .ok (.bounded snap) ∧
        (∃ totals, snap.scanAccounting = .ok (.exact totals) ∧
          (∀ r ≠ .walkError, totals.count r =
            (rootItems walker (config.roots.zip keys)).countP (leftOutFor config ownDatabase r)) ∧
          totals.count .walkError =
            (rootItems walker (config.roots.zip keys)).countP (fun item => !item.isOk) +
              passedOverIn walker (config.roots.zip keys)) ∧
        ∀ root ∈ config.roots.zip keys, ∀ path key, PathKey.new path = some key →
          key.isAtOrUnder root.2 = true → key.segments ≠ [] →
          Says (fun r => eventsUnder walker config ownDatabase root key r +
            if key ≠ root.2 ∧ r = .walkError then rootErrors walker config ownDatabase root else 0)
            (snap.verdict path) := by
  obtain ⟨perRoot, rfl⟩ := walk_publishes hkeys hwalk hfew
  refine ⟨perRoot, rfl, fun scanId l l' hconfig hcommit => ?_⟩
  obtain ⟨keys', snap, hbuild, w⟩ := walk_builds hwalk hconfig hcommit
  obtain rfl : keys = keys' := Except.ok.inj (hkeys.symm.trans w.keyed)
  obtain ⟨totals, hacc, htotals⟩ := w.totals_eq hfew
  refine ⟨snap, hbuild, ⟨totals, hacc, fun r hr => ?_, ?_⟩,
    fun root hroot path key hkey hin hbelow => ?_⟩
  · rw [htotals, CommittedWalk.events_of_reason, if_neg hr, Nat.add_zero]
  · rw [htotals, CommittedWalk.events_of_reason, if_pos rfl]
    exact congrArg (· + _) (List.countP_congr fun item _ => by rw [leftOutFor_walkError])
  · have hcounted := w.verdict_eq hroot hkey hin hbelow
    cases hverdict : snap.verdict path with
    | ok verdict =>
      rw [hverdict] at hcounted
      cases verdict <;> exact hcounted
    | error e =>
      rw [hverdict] at hcounted
      obtain ⟨r, hr⟩ := hcounted
      -- The events of one root are no more than its items, twice over short of the word.
      have hitems : (walker.items [root.1]).length ≤
          (rootItems walker (config.roots.zip keys)).length := by
        unfold rootItems
        rw [List.length_flatMap]
        exact List.le_sum_of_mem (List.mem_map.2 ⟨root, hroot, rfl⟩)
      have hevents := @length_walkEvents_le config ownDatabase
        (walker.items [root.1]) none
      simp only [Option.toList_none, List.length_nil, Nat.add_zero] at hevents
      have hunder : eventsUnder walker config ownDatabase root key r ≤
          (walkEvents config ownDatabase none (walker.items [root.1])).length :=
        List.countP_le_length
      have herrors : rootErrors walker config ownDatabase root ≤
          (walkEvents config ownDatabase none (walker.items [root.1])).length :=
        List.countP_le_length
      simp only at hr
      split at hr <;> omega

/-- The figures of `walkedTree`: one small file, one failed listing, one directory passed over. -/
theorem walk_figures_tree :
    ∃ files perRoot, walkCollecting walkedTree walkedConfig [] (fun _ => false) =
        .ok (.finished files (.publishable perRoot)) ∧
      ∃ l' snap totals, OmissionLedger.commitOmissions 1 perRoot
          (OmissionLedger.beginScan walkedConfig.roots) = (.ok (), l') ∧
        CompletenessSnapshot.build walkedConfig.roots l'.roots l'.omissions = .ok (.bounded snap) ∧
        snap.scanAccounting = .ok (.exact totals) ∧ totals.count .minSize = 1 ∧
        totals.count .walkError = 2 := by
  obtain ⟨perRoot, hperRoot, hall⟩ := @walk_figures walkedTree walkedConfig [] (fun _ => false)
    _ _ [⟨[[116]], by decide⟩, ⟨[[117]], by decide⟩] rfl rfl (by decide)
  cases hperRoot
  obtain ⟨snap, hbuild, ⟨totals, hacc, hcount, herrors⟩, -⟩ :=
    hall 1 (OmissionLedger.beginScan walkedConfig.roots) _ rfl rfl
  exact ⟨_, _, rfl, _, snap, totals, rfl, hbuild, hacc, (hcount .minSize (by decide)).trans rfl,
    herrors.trans rfl⟩

end DedupCommando
