import DedupCommando.Pipeline.WalkPlaces
import DedupCommando.Store.CommittedBuild

/-!
# What a walk records

* `WalkEvent`, `leftOut`, `kept` — what one item leaves out, or adds to the manifest.
* `waitsAfter`, `walkEvents` — the directory that waits for its identity, and every event of the
  items of one root.
* `absorb_ok` — what one item does to the files, the guard, the account and the wait.
* `walkItems_ok`, `walkRoots_ok` — and what the items of one root, and of all roots, do.
* `record_tally`, `recordAll_tally` — one event more, and any number of them, in a collector.
* `walk_recorded` — the cells of a finished walk count its events, one by one.
-/

set_option autoImplicit false

namespace DedupCommando

/-! ## Events -/

/-- One omission: a known entry and why, or an error of the iterator. -/
inductive WalkEvent where
  | child (path : Path) (reason : OmissionReason)
  | error (err : WalkError)

namespace WalkEvent

def reason : WalkEvent → OmissionReason
  | child _ reason => reason
  | error _ => .walkError

/-- The directory that the event is counted at. -/
def cell (root : PathKey) : WalkEvent → PathKey
  | child path _ => attributeChild path root
  | error err => errorCell err root

end WalkEvent

section Items

variable (config : WalkConfig) (ownDatabase : List (Nat × Nat))

/-- What an item leaves out by itself. -/
def leftOut : WalkItem → Option WalkEvent
  | .error err => some (.error err)
  | .ok entry =>
    match entry.fileType with
    | some .file =>
      match judgeFile config ownDatabase entry with
      | .omitted reason => some (.child entry.path reason)
      | _ => none
    | some .dir => none
    | _ => some (.child entry.path .unsupportedEntry)

/-- The manifest row that an item becomes. -/
def kept : WalkItem → Option WalkedFile
  | .error _ => none
  | .ok entry =>
    match entry.fileType with
    | some .file =>
      match judgeFile config ownDatabase entry with
      | .manifest file => some file
      | _ => none
    | _ => none

/-- The event of a directory that waited, when an entry settles it. -/
def settledBy (waiting : Option Unverified) : WalkItem → Option WalkEvent
  | .ok _ => waiting.map fun u => .error u.cause
  | .error _ => none

/-- The directory that waits after an item. -/
def waitsAfter (waiting : Option Unverified) : WalkItem → Option Unverified
  | .error err => waiting.filter fun u => !isFailureOf err u.dir
  | .ok entry =>
    match entry.fileType, entry.metadata with
    | some .dir, .error cause => some ⟨entry.path, cause⟩
    | _, _ => none

/-- The events of one item. -/
def itemEvents (waiting : Option Unverified) (item : WalkItem) : List WalkEvent :=
  (settledBy waiting item).toList ++ (leftOut config ownDatabase item).toList

/-- The events of one root's items, the directory that still waits at the end among them. -/
def walkEvents : Option Unverified → List WalkItem → List WalkEvent
  | waiting, [] => (waiting.map fun u => WalkEvent.error u.cause).toList
  | waiting, item :: rest =>
    itemEvents config ownDatabase waiting item ++ walkEvents (waitsAfter waiting item) rest

end Items

/-- Counts one event. -/
def Account.note : Account → WalkEvent → Account
  | .ledger root collector, e => .ledger root (collector.record root (e.cell root) e.reason)
  | .observed tally, e => .observed (tally.record e.reason)

theorem recordChild_eq (sink : Sink) (path : Path) (reason : OmissionReason) :
    sink.recordChild path reason = { sink with account := sink.account.note (.child path reason) } := by
  unfold Sink.recordChild Account.note
  cases sink.account <;> rfl

theorem recordError_eq (sink : Sink) (err : WalkError) :
    sink.recordError err = { sink with account := sink.account.note (.error err) } := by
  unfold Sink.recordError Account.note
  cases sink.account <;> rfl

/-! ## One item -/

section Items

variable {config : WalkConfig} {ownDatabase : List (Nat × Nat)}

/-- What an item does to the sink of its walk. -/
structure Absorbed (config : WalkConfig) (ownDatabase : List (Nat × Nat)) (item : WalkItem)
    (sink sink' : Sink) : Prop where
  account : sink'.account =
    (itemEvents config ownDatabase sink.unverified item).foldl Account.note sink.account
  waits : sink'.unverified = waitsAfter sink.unverified item
  files : sink'.files = sink.files ++ (kept config ownDatabase item).toList
  owners : ∀ d i p, sink.dirs.owner d i = some p → sink'.dirs.owner d i = some p
  noted : ∀ entry found, item = .ok entry → entry.fileType = some .dir →
    entry.metadata = .ok found → sink'.dirs.owner found.device found.inode = some entry.path
  outside : ∀ entry u, item = .ok entry → sink.unverified = some u →
    entry.path.startsWith u.dir = false

/-- An error is one event and settles nothing but the directory it is the failure of. -/
theorem absorb_error {err : WalkError} {sink sink' : Sink}
    (h : absorb config ownDatabase (.error err) sink = .ok sink') :
    Absorbed config ownDatabase (.error err) sink sink' := by
  have hsettled : settleByNext (.error err) sink =
      .ok { sink with unverified := waitsAfter sink.unverified (.error err) } := by
    unfold settleByNext waitsAfter
    cases hwait : sink.unverified with
    | none =>
      simp only [Option.filter_none]
      rw [← hwait]
    | some u =>
      simp only [Option.filter_some]
      by_cases hown : isFailureOf err u.dir = true
      · simp [hown]
      · rw [Bool.not_eq_true] at hown
        simp only [hown, Bool.false_eq_true, if_false, Bool.not_false, if_true]
        rw [← hwait]
  unfold absorb at h
  rw [hsettled] at h
  simp only [recordError_eq] at h
  cases h
  refine ⟨rfl, rfl, ?_, fun _ _ _ hp => hp, fun _ _ he => (by cases he),
    fun _ _ he => (by cases he)⟩
  simp [kept]

/-- An entry settles the directory that waited before anything else is done with it. -/
theorem settleByNext_entry {entry : WalkEntry} {sink sink₁ : Sink}
    (h : settleByNext (.ok entry) sink = .ok sink₁) :
    sink₁ = ⟨sink.files, sink.dirs,
      (settledBy sink.unverified (.ok entry)).toList.foldl Account.note sink.account, none⟩ ∧
      ∀ u, sink.unverified = some u → entry.path.startsWith u.dir = false := by
  unfold settleByNext at h
  split at h
  · rename_i hnone
    cases h
    refine ⟨?_, fun u hu => ?_⟩
    · rw [hnone]
      simp only [settledBy, Option.map_none, Option.toList_none, List.foldl_nil]
      rw [← hnone]
    · rw [hnone] at hu
      cases hu
  · rename_i u hsome
    simp only at h
    split at h
    · cases h
    · rename_i hout
      cases h
      refine ⟨?_, fun u' hu' => ?_⟩
      · rw [hsome, recordError_eq]
        rfl
      · rw [hsome] at hu'
        cases hu'
        simpa using hout

/-- **What one item does.** -/
theorem absorb_ok {item : WalkItem} {sink sink' : Sink}
    (h : absorb config ownDatabase item sink = .ok sink') :
    Absorbed config ownDatabase item sink sink' := by
  cases item with
  | error err => exact absorb_error h
  | ok entry =>
    unfold absorb at h
    split at h
    · cases h
    rename_i sink₁ hsettled
    obtain ⟨rfl, hout⟩ := settleByNext_entry hsettled
    have hevents : ∀ (left : Option WalkEvent), leftOut config ownDatabase (.ok entry) = left →
        (itemEvents config ownDatabase sink.unverified (.ok entry)).foldl Account.note sink.account =
          left.toList.foldl Account.note
            ((settledBy sink.unverified (.ok entry)).toList.foldl Account.note sink.account) := by
      intro left hleft
      rw [itemEvents, hleft, List.foldl_append]
    have houtside : ∀ entry' u, (.ok entry : WalkItem) = .ok entry' → sink.unverified = some u →
        entry'.path.startsWith u.dir = false := by
      intro entry' u he hu
      cases he
      exact hout u hu
    simp only at h
    split at h
    · rename_i hfile
      have hnotDir : ∀ entry' found, (.ok entry : WalkItem) = .ok entry' →
          entry'.fileType = some .dir → entry'.metadata = .ok found →
          ∀ dirs : DirAliasGuard, dirs.owner found.device found.inode = some entry'.path := by
        intro entry' found he hdir _ _
        cases he
        rw [hfile] at hdir
        cases hdir
      have hwaits : waitsAfter sink.unverified (.ok entry) = none := by
        simp [waitsAfter, hfile]
      split at h
      · rename_i file hjudge
        cases h
        refine ⟨?_, hwaits.symm, ?_, fun _ _ _ hp => hp,
          fun e f he hd hm => hnotDir e f he hd hm _, houtside⟩
        · rw [hevents none (by simp [leftOut, hfile, hjudge])]
          rfl
        · simp [kept, hfile, hjudge]
      · rename_i hjudge
        cases h
        refine ⟨?_, hwaits.symm, ?_, fun _ _ _ hp => hp,
          fun e f he hd hm => hnotDir e f he hd hm _, houtside⟩
        · rw [hevents none (by simp [leftOut, hfile, hjudge])]
          rfl
        · simp [kept, hfile, hjudge]
      · rename_i reason hjudge
        rw [recordChild_eq] at h
        cases h
        refine ⟨?_, hwaits.symm, ?_, fun _ _ _ hp => hp,
          fun e f he hd hm => hnotDir e f he hd hm _, houtside⟩
        · rw [hevents (some (.child entry.path reason)) (by simp [leftOut, hfile, hjudge])]
          rfl
        · simp [kept, hfile, hjudge]
    · rename_i hdir
      split at h
      · rename_i found hfound
        split at h
        · rename_i dirs hnote
          cases h
          obtain ⟨hnoted, howners⟩ := DirAliasGuard.note_ok hnote
          refine ⟨?_, by simp [waitsAfter, hdir, hfound], ?_, howners, ?_, houtside⟩
          · rw [hevents none (by simp [leftOut, hdir])]
            rfl
          · simp [kept, hdir]
          · intro entry' found' he _ hm
            cases he
            rw [hfound] at hm
            cases hm
            exact hnoted
        · cases h
      · rename_i cause hcause
        cases h
        refine ⟨?_, by simp [waitsAfter, hdir, hcause], ?_, fun _ _ _ hp => hp, ?_, houtside⟩
        · rw [hevents none (by simp [leftOut, hdir])]
          rfl
        · simp [kept, hdir]
        · intro entry' found' he _ hm
          cases he
          rw [hcause] at hm
          cases hm
    · rename_i hnotFile hnotDir
      rw [recordChild_eq] at h
      cases h
      have hother : entry.fileType = none ∨ entry.fileType = some .other := by
        cases htype : entry.fileType with
        | none => exact .inl rfl
        | some t =>
          cases t with
          | file => exact absurd htype hnotFile
          | dir => exact absurd htype hnotDir
          | other => exact .inr rfl
      refine ⟨?_, ?_, ?_, fun _ _ _ hp => hp, ?_, houtside⟩
      · rw [hevents (some (.child entry.path .unsupportedEntry))]
        · rfl
        · rcases hother with ht | ht <;> simp [leftOut, ht]
      · rcases hother with ht | ht <;> simp [waitsAfter, ht]
      · rcases hother with ht | ht <;> simp [kept, ht]
      · intro entry' found' he hd _
        cases he
        exact absurd hd hnotDir

/-! ## The items of one root -/

/-- Whether an item is a directory whose identity could be read. -/
def notedAs : WalkItem → Option (Path × Nat × Nat)
  | .error _ => none
  | .ok entry =>
    match entry.fileType, entry.metadata with
    | some .dir, .ok found => some (entry.path, found.device, found.inode)
    | _, _ => none

theorem notedAs_some {item : WalkItem} {p : Path} {d i : Nat} (h : notedAs item = some (p, d, i)) :
    ∃ entry found, item = .ok entry ∧ entry.fileType = some .dir ∧ entry.metadata = .ok found ∧
      entry.path = p ∧ found.device = d ∧ found.inode = i := by
  unfold notedAs at h
  split at h
  · cases h
  · rename_i entry
    split at h
    · rename_i found hdir hfound
      cases h
      exact ⟨entry, found, rfl, hdir, hfound, rfl, rfl, rfl⟩
    · cases h

/-- **What the items of one root do**, settled at their end. -/
theorem walkItems_ok {cancel : Nat → Bool} :
    ∀ {items : List WalkItem} {entries n : Nat} {sink sink' : Sink},
      walkItems config ownDatabase cancel items entries sink = .ok (false, n, sink') →
      sink'.settleUnverified.account =
        (walkEvents config ownDatabase sink.unverified items).foldl Account.note sink.account ∧
      sink'.files = sink.files ++ items.filterMap (kept config ownDatabase) ∧
      (∀ d i p, sink.dirs.owner d i = some p → sink'.dirs.owner d i = some p) ∧
      ∀ item ∈ items, ∀ p d i, notedAs item = some (p, d, i) → sink'.dirs.owner d i = some p
  | [], entries, n, sink, sink', h => by
    cases h
    refine ⟨?_, by simp, fun _ _ _ hp => hp, fun _ hm => absurd hm List.not_mem_nil⟩
    unfold Sink.settleUnverified walkEvents
    cases hwait : sink.unverified with
    | none => rfl
    | some u =>
      simp only [recordError_eq]
      rfl
  | item :: rest, entries, n, sink, sink', h => by
    unfold walkItems at h
    split at h
    · cases h
    split at h
    · cases h
    rename_i sink₁ hitem
    have habsorbed := absorb_ok hitem
    obtain ⟨haccount, hfiles, howners, hnoted⟩ := walkItems_ok h
    refine ⟨?_, ?_, fun d i p hp => howners d i p (habsorbed.owners d i p hp), ?_⟩
    · rw [haccount, habsorbed.account, habsorbed.waits, walkEvents, List.foldl_append]
    · rw [hfiles, habsorbed.files, List.filterMap_cons]
      cases kept config ownDatabase item <;> simp
    · refine List.forall_mem_cons.2 ⟨fun p d i hp => ?_, hnoted⟩
      obtain ⟨entry, found, rfl, hdir, hfound, rfl, rfl, rfl⟩ := notedAs_some hp
      exact howners _ _ _ (habsorbed.noted entry found rfl hdir hfound)

end Items

/-! ## Events in a collector -/

/-- The events that a map of counts holds of the cells with property `P`. -/
def countsOf (perRoot : OrdMap PathKey OmissionCounts)
    (P : PathKey → PathKey → OmissionReason → Bool) : Nat :=
  tally (cellsOf perRoot) fun c => P c.root c.directory c.reason

/-- And those of one root. -/
def countIn (P : PathKey → PathKey → OmissionReason → Bool) (root : PathKey)
    (counts : OmissionCounts) : Nat :=
  (counts.cells.entries.map fun e =>
    if P root (ofLex e.1).1 (ofLex e.1).2 then e.2.get else 0).sum

theorem countsOf_eq (perRoot : OrdMap PathKey OmissionCounts)
    (P : PathKey → PathKey → OmissionReason → Bool) :
    countsOf perRoot P = (perRoot.entries.map fun e => countIn P e.1 e.2).sum := by
  unfold countsOf cellsOf
  induction perRoot.entries with
  | nil => rfl
  | cons e es ih =>
    rw [List.flatMap_cons, tally_append, ih, List.map_cons, List.sum_cons]
    congr 1
    unfold tally countIn OmissionCounts.iter
    simp only [List.map_map]
    rfl

/-- One bump adds one event to its cell. -/
theorem countIn_bump {counts counts' : OmissionCounts} {directory : PathKey}
    {reason : OmissionReason} (h : counts.bump directory reason = .ok counts')
    (P : PathKey → PathKey → OmissionReason → Bool) (root : PathKey) :
    countIn P root counts' = countIn P root counts + if P root directory reason then 1 else 0 := by
  unfold OmissionCounts.bump OmissionCounts.add at h
  simp only at h
  have hinsert := fun v => counts.cells.sum_insert (toLex (directory, reason)) v fun e =>
    if P root (ofLex e.1).1 (ofLex e.1).2 then e.2.get else 0
  split at h
  · rename_i hnone
    cases h
    have := hinsert .one
    rw [hnone, Option.elim_none, Nat.add_zero] at this
    exact this
  · rename_i existing hsome
    split at h
    · rename_i total htotal
      cases h
      have := hinsert total
      rw [hsome, Option.elim_some] at this
      have htotal := EventCount.checkedAdd_ok htotal
      have hone : EventCount.one.get = 1 := rfl
      unfold countIn
      simp only [ofLex_toLex] at this ⊢
      cases hP : P root directory reason <;> simp [hP] at this ⊢ <;> omega
    · cases h

/-- A bump fails only on a cell whose count is at the end of its word. -/
theorem bump_error {counts : OmissionCounts} {directory : PathKey} {reason : OmissionReason}
    {e : String} (h : counts.bump directory reason = .error e) (root : PathKey) :
    2 ^ 64 ≤ countIn (fun _ _ _ => true) root counts + 1 := by
  unfold OmissionCounts.bump OmissionCounts.add at h
  simp only at h
  split at h
  · cases h
  · rename_i existing hsome
    split at h
    · cases h
    · rename_i hadd
      have hover := EventCount.checkedAdd_error hadd
      have hle : existing.get ≤ countIn (fun _ _ _ => true) root counts := by
        unfold countIn
        refine List.le_sum_of_mem (List.mem_map.2 ⟨_, OrdMap.mem_entries.2 hsome, ?_⟩)
        simp
      have hone : EventCount.one.get = 1 := rfl
      omega

namespace Collector

/-- **One event more in a collector.** -/
theorem record_tally {c : Collector} {root directory : PathKey} {reason : OmissionReason}
    (h : (c.record root directory reason).failure = none) :
    c.failure = none ∧ (∀ k, k ∈ (c.record root directory reason).perRoot.keys ↔ k ∈ c.perRoot.keys) ∧
      ∀ P, countsOf (c.record root directory reason).perRoot P =
        countsOf c.perRoot P + if P root directory reason then 1 else 0 := by
  unfold record at h ⊢
  split at h
  · rename_i hfailed
    rw [h] at hfailed
    cases hfailed
  rename_i hok
  rw [Option.isSome_iff_ne_none, not_not] at hok
  rw [if_neg (by simp [hok])]
  split at h
  · cases h
  rename_i counts hcounts
  split at h
  · rename_i counts' hbump
    refine ⟨hok, fun k => ?_, fun P => ?_⟩
    · rw [OrdMap.mem_keys_insert, or_iff_right_of_imp]
      rintro rfl
      exact OrdMap.contains_iff.1 (by rw [OrdMap.contains, hcounts]; rfl)
    · have hsum := c.perRoot.sum_insert root counts' fun e => countIn P e.1 e.2
      rw [hcounts, Option.elim_some, countIn_bump hbump P root] at hsum
      rw [countsOf_eq, countsOf_eq]
      simp only at hsum ⊢
      omega
  · cases h

/-- An event is refused by no collector that knows its root, short of the end of a count. -/
theorem record_failure {c : Collector} {root directory : PathKey} {reason : OmissionReason}
    (hok : c.failure = none) (hroot : root ∈ c.perRoot.keys)
    (hroom : countsOf c.perRoot (fun _ _ _ => true) + 1 < 2 ^ 64) :
    (c.record root directory reason).failure = none := by
  unfold record
  rw [if_neg (by simp [hok])]
  obtain ⟨counts, hcounts⟩ := Option.isSome_iff_exists.1 (OrdMap.contains_iff.2 hroot)
  rw [hcounts]
  simp only
  cases hbump : counts.bump directory reason with
  | ok counts' => exact hok
  | error e =>
    have hover := bump_error hbump root
    have hle : countIn (fun _ _ _ => true) root counts ≤ countsOf c.perRoot fun _ _ _ => true := by
      rw [countsOf_eq]
      exact List.le_sum_of_mem (List.mem_map.2 ⟨_, OrdMap.mem_entries.2 hcounts, rfl⟩)
    omega

/-- A list of events: root, directory, reason. -/
def recordAll (c : Collector) (events : List (PathKey × PathKey × OmissionReason)) : Collector :=
  events.foldl (fun c e => c.record e.1 e.2.1 e.2.2) c

/-- **Any number of events**: each cell counts those that fell on it. -/
theorem recordAll_tally :
    ∀ {events : List (PathKey × PathKey × OmissionReason)} {c : Collector},
      (c.recordAll events).failure = none →
      c.failure = none ∧ (∀ k, k ∈ (c.recordAll events).perRoot.keys ↔ k ∈ c.perRoot.keys) ∧
        ∀ P, countsOf (c.recordAll events).perRoot P =
          countsOf c.perRoot P + events.countP fun e => P e.1 e.2.1 e.2.2
  | [], c, h => ⟨h, fun _ => Iff.rfl, fun _ => rfl⟩
  | e :: rest, c, h => by
    obtain ⟨hstep, hkeys, hcounts⟩ := @recordAll_tally rest _ h
    obtain ⟨hok, hkeys₁, hcounts₁⟩ := record_tally hstep
    refine ⟨hok, fun k => (hkeys k).trans (hkeys₁ k), fun P => ?_⟩
    have := hcounts P
    rw [hcounts₁ P] at this
    rw [List.countP_cons]
    show countsOf (recordAll _ rest).perRoot P = _
    rw [this]
    omega

/-- Fewer events than a count can hold are all recorded. -/
theorem recordAll_failure :
    ∀ {events : List (PathKey × PathKey × OmissionReason)} {c : Collector}, c.failure = none →
      (∀ e ∈ events, e.1 ∈ c.perRoot.keys) →
      countsOf c.perRoot (fun _ _ _ => true) + events.length < 2 ^ 64 →
      (c.recordAll events).failure = none
  | [], c, hok, _, _ => hok
  | e :: rest, c, hok, hroots, hroom => by
    obtain ⟨hroot, hrest⟩ := List.forall_mem_cons.1 hroots
    rw [List.length_cons] at hroom
    have hstep : (c.record e.1 e.2.1 e.2.2).failure = none :=
      record_failure hok hroot (by omega)
    obtain ⟨-, hkeys, hcounts⟩ := record_tally hstep
    show ((c.record e.1 e.2.1 e.2.2).recordAll rest).failure = none
    refine recordAll_failure hstep (fun e' he' => (hkeys _).2 (hrest e' he')) ?_
    rw [hcounts, if_pos rfl]
    omega

theorem mem_new_keys {roots : List PathKey} {k : PathKey} :
    k ∈ (new roots).perRoot.keys ↔ k ∈ roots := by
  have hfold : ∀ (roots : List PathKey) (m : OrdMap PathKey OmissionCounts),
      k ∈ (roots.foldl (fun perRoot root => perRoot.insert root .new) m).keys ↔
        k ∈ roots ∨ k ∈ m.keys := by
    intro roots
    induction roots with
    | nil => simp
    | cons root roots ih =>
      intro m
      rw [List.foldl_cons, ih, OrdMap.mem_keys_insert, List.mem_cons]
      tauto
  rw [new, hfold]
  simp [OrdMap.keys, OrdMap.empty]

theorem countsOf_new (roots : List PathKey) (P : PathKey → PathKey → OmissionReason → Bool) :
    countsOf (new roots).perRoot P = 0 := by
  have hfold : ∀ (roots : List PathKey) (m : OrdMap PathKey OmissionCounts),
      (∀ e ∈ m.entries, e.2 = .new) →
      ∀ e ∈ (roots.foldl (fun perRoot root => perRoot.insert root .new) m).entries, e.2 = .new := by
    intro roots
    induction roots with
    | nil => exact fun m h => h
    | cons root roots ih =>
      intro m h
      rw [List.foldl_cons]
      refine ih _ fun e he => ?_
      have hget := OrdMap.mem_entries.1 (show (e.1, e.2) ∈ _ from he)
      rw [OrdMap.get?_insert] at hget
      split at hget
      · exact (Option.some.inj hget).symm
      · exact h e (OrdMap.mem_entries.2 hget)
  have hnew := hfold roots .empty fun _ h => absurd h List.not_mem_nil
  rw [countsOf_eq]
  refine List.sum_eq_zero fun n hn => ?_
  obtain ⟨e, he, rfl⟩ := List.mem_map.1 hn
  rw [hnew e he]
  rfl

end Collector

/-! ## The walk of all roots -/

section Roots

variable (walker : Walker) (config : WalkConfig) (ownDatabase : List (Nat × Nat))

/-- The events of one root, each with its cell. -/
def rootEvents (root : Path × PathKey) : List (PathKey × PathKey × OmissionReason) :=
  (walkEvents config ownDatabase none (walker.items [root.1])).map fun e =>
    (root.2, e.cell root.2, e.reason)

/-- Every item of the walks of these roots, in their order. -/
def rootItems (roots : List (Path × PathKey)) : List WalkItem :=
  roots.flatMap fun root => walker.items [root.1]

end Roots

variable {walker : Walker} {config : WalkConfig} {ownDatabase : List (Nat × Nat)}
  {cancel : Nat → Bool}

theorem note_ledger (root : PathKey) :
    ∀ (events : List WalkEvent) (c : Collector),
      events.foldl Account.note (.ledger root c) =
        .ledger root (c.recordAll (events.map fun e => (root, e.cell root, e.reason)))
  | [], _ => rfl
  | _ :: rest, _ => note_ledger root rest _

theorem settleUnverified_files (sink : Sink) : sink.settleUnverified.files = sink.files := by
  unfold Sink.settleUnverified
  cases sink.unverified with
  | none => rfl
  | some u => simp only [recordError_eq]

theorem settleUnverified_dirs (sink : Sink) : sink.settleUnverified.dirs = sink.dirs := by
  unfold Sink.settleUnverified
  cases sink.unverified with
  | none => rfl
  | some u => simp only [recordError_eq]

/-- **What a walk of all roots leaves** when nothing stopped it. -/
theorem walkRoots_ok :
    ∀ {roots : List (Path × PathKey)} {state state' : WalkState},
      walkRoots walker config ownDatabase cancel roots state = .ok (false, state') →
      state'.collector = state.collector.recordAll
        (roots.flatMap (rootEvents walker config ownDatabase)) ∧
      state'.files = state.files ++ (rootItems walker roots).filterMap (kept config ownDatabase) ∧
      (∀ d i p, state.dirs.owner d i = some p → state'.dirs.owner d i = some p) ∧
      ∀ item ∈ rootItems walker roots, ∀ p d i, notedAs item = some (p, d, i) →
        state'.dirs.owner d i = some p
  | [], state, state', h => by
    cases h
    exact ⟨rfl, by simp [rootItems], fun _ _ _ hp => hp, fun _ hm => absurd hm List.not_mem_nil⟩
  | (path, key) :: rest, state, state', h => by
    unfold walkRoots at h
    split at h
    · cases h
    · cases h
    · rename_i entries sink hitems
      obtain ⟨haccount, hfiles, howners, hnoted⟩ := walkItems_ok hitems
      rw [note_ledger] at haccount
      simp only [haccount, Account.collector, settleUnverified_files, settleUnverified_dirs] at h
      obtain ⟨hcollector, hfiles', howners', hnoted'⟩ := walkRoots_ok h
      refine ⟨?_, ?_, fun d i p hp => howners' d i p (howners d i p hp), fun item hitem p d i hp => ?_⟩
      · rw [hcollector, List.flatMap_cons, Collector.recordAll, Collector.recordAll,
          Collector.recordAll, List.foldl_append]
        rfl
      · rw [hfiles', hfiles]
        simp [rootItems]
      · rw [rootItems, List.flatMap_cons, List.mem_append] at hitem
        rcases hitem with hitem | hitem
        · exact howners' d i p (hnoted item hitem p d i hp)
        · exact hnoted' item hitem p d i hp

/-- A walk over keyed roots that finished. -/
theorem walkCollecting_keyed {files : List WalkedFile} {omissions : OmissionSnapshot}
    {keys : List PathKey} (hkeys : rootKeys config.roots = .ok keys)
    (h : walkCollecting walker config ownDatabase cancel = .ok (.finished files omissions)) :
    ∃ state, walkRoots walker config ownDatabase cancel (config.roots.zip keys)
        ⟨0, [], .default, .new keys⟩ = .ok (false, state) ∧
      files = state.files ∧ omissions = state.collector.finish := by
  unfold walkCollecting at h
  split at h
  · cases h
  split at h
  · cases h
  rw [hkeys] at h
  simp only at h
  split at h
  · cases h
  · cases h
  · rename_i state hstate
    cases h
    exact ⟨state, hstate, rfl, rfl⟩

/-- Only keyed roots have a publishable account. -/
theorem publishable_keys {files : List WalkedFile} {perRoot : OrdMap PathKey OmissionCounts}
    (h : walkCollecting walker config ownDatabase cancel =
      .ok (.finished files (.publishable perRoot))) :
    ∃ keys, rootKeys config.roots = .ok keys := by
  cases hkeys : rootKeys config.roots with
  | ok keys => exact ⟨keys, rfl⟩
  | error why =>
    unfold walkCollecting at h
    split at h
    · cases h
    split at h
    · cases h
    rw [hkeys] at h
    simp only at h
    split at h
    · cases h
    · rename_i cancelled n sink hitems
      cases cancelled with
      | true => cases h
      | false =>
        obtain ⟨haccount, -⟩ := walkItems_ok hitems
        have hobserved : ∀ (events : List WalkEvent) (tally : ObservedTally),
            ∃ tally', events.foldl Account.note (.observed tally) = .observed tally' := by
          intro events
          induction events with
          | nil => exact fun tally => ⟨tally, rfl⟩
          | cons e rest ih => exact fun tally => ih (tally.record e.reason)
        obtain ⟨tally, htally⟩ := hobserved (walkEvents config ownDatabase none
          (walker.items config.roots)) .default
        rw [haccount, htally] at h
        simp only [Bool.false_eq_true, if_false] at h
        unfold ObservedTally.finish at h
        split at h <;> cases h

theorem finish_publishable {c : Collector} {perRoot : OrdMap PathKey OmissionCounts}
    (h : c.finish = .publishable perRoot) : c.failure = none ∧ perRoot = c.perRoot := by
  unfold Collector.finish at h
  split at h
  · cases h
  · rename_i hok
    split at h
    · cases h
    · cases h
      exact ⟨hok, rfl⟩

/-- **The cells of a finished walk count its events**, one by one. -/
theorem walk_recorded {files : List WalkedFile} {perRoot : OrdMap PathKey OmissionCounts}
    (h : walkCollecting walker config ownDatabase cancel =
      .ok (.finished files (.publishable perRoot))) :
    ∃ keys, rootKeys config.roots = .ok keys ∧ (∀ k, k ∈ perRoot.keys ↔ k ∈ keys) ∧
      files = (rootItems walker (config.roots.zip keys)).filterMap (kept config ownDatabase) ∧
      ∀ P, countsOf perRoot P =
        ((config.roots.zip keys).flatMap (rootEvents walker config ownDatabase)).countP
          fun e => P e.1 e.2.1 e.2.2 := by
  obtain ⟨keys, hkeys⟩ := publishable_keys h
  obtain ⟨state, hstate, hfiles, hfinish⟩ := walkCollecting_keyed hkeys h
  obtain ⟨hok, rfl⟩ := finish_publishable hfinish.symm
  obtain ⟨hcollector, hall, -⟩ := walkRoots_ok hstate
  rw [hcollector] at hok ⊢
  obtain ⟨-, hperRoot, hcounts⟩ := Collector.recordAll_tally hok
  refine ⟨keys, hkeys, fun k => (hperRoot k).trans Collector.mem_new_keys, ?_, fun P => ?_⟩
  · rw [hfiles, hall, List.nil_append]
  · rw [hcounts, Collector.countsOf_new, Nat.zero_add]

end DedupCommando
