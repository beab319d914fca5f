import DedupCommando.Pipeline.WalkLedger

/-!
# What a trusted directory says of the walk

From the items of a walk through its ledger, the commit and the snapshot to the disposition of a
directory.

* `mem_walkEvents_of`, `of_mem_walkEvents` — which items the events come from.
* `told_events` — what the committed ledger tells of a directory is the events at or under it.
* `Accounted`, `walk_disposition` — a directory is suppressed when something under it was left
  out, and trusted when nothing was.
* `CommittedWalk.verdict_eq` — and what the verdict of a directory counts.
-/

set_option autoImplicit false

namespace DedupCommando

/-! ## Where the events come from -/

section Items

variable {config : WalkConfig} {ownDatabase : List (Nat × Nat)}

/-- A directory whose identity could not be read. -/
def Unread (entry : WalkEntry) (cause : WalkError) : Prop :=
  entry.fileType = some .dir ∧ entry.metadata = .error cause

theorem waitsAfter_unread {entry : WalkEntry} {cause : WalkError} (h : Unread entry cause)
    (waiting : Option Unverified) : waitsAfter waiting (.ok entry) = some ⟨entry.path, cause⟩ := by
  simp [waitsAfter, h.1, h.2]

theorem waitsAfter_entry {waiting : Option Unverified} {entry : WalkEntry} {u : Unverified}
    (h : waitsAfter waiting (.ok entry) = some u) :
    Unread entry u.cause ∧ u.dir = entry.path := by
  unfold waitsAfter at h
  simp only at h
  split at h
  · rename_i cause hdir hcause
    cases h
    exact ⟨⟨hdir, hcause⟩, rfl⟩
  · cases h

/-- An item that leaves something out is an event. -/
theorem mem_walkEvents_of {e : WalkEvent} :
    ∀ {items : List WalkItem} {waiting : Option Unverified} {item : WalkItem}, item ∈ items →
      leftOut config ownDatabase item = some e → e ∈ walkEvents config ownDatabase waiting items
  | first :: rest, waiting, item, hmem, hleft => by
    rw [walkEvents, List.mem_append]
    rcases List.mem_cons.1 hmem with rfl | hmem
    · left
      rw [itemEvents, hleft]
      simp
    · exact .inr (mem_walkEvents_of hmem hleft)

/-- A directory that waits becomes an event: its own failure, or the one that kept its identity
from being read. -/
theorem waiting_mem_walkEvents {u : Unverified} :
    ∀ {items : List WalkItem},
      WalkEvent.error u.cause ∈ walkEvents config ownDatabase (some u) items ∨
        ∃ err, .error err ∈ items ∧ isFailureOf err u.dir = true
  | [] => by simp [walkEvents]
  | .ok entry :: rest => by
    left
    rw [walkEvents, itemEvents]
    simp [settledBy]
  | .error err :: rest => by
    by_cases hown : isFailureOf err u.dir = true
    · exact .inr ⟨err, List.mem_cons_self, hown⟩
    · have hwait : waitsAfter (some u) (.error err) = some u := by
        simp [waitsAfter, hown]
      rw [walkEvents, hwait]
      rcases @waiting_mem_walkEvents u rest with h | ⟨err', herr, hown'⟩
      · exact .inl (List.mem_append_right _ h)
      · exact .inr ⟨err', List.mem_cons_of_mem _ herr, hown'⟩

theorem unread_mem_walkEvents {entry : WalkEntry} {cause : WalkError} (h : Unread entry cause) :
    ∀ {items : List WalkItem} {waiting : Option Unverified}, .ok entry ∈ items →
      WalkEvent.error cause ∈ walkEvents config ownDatabase waiting items ∨
        ∃ err, .error err ∈ items ∧ isFailureOf err entry.path = true
  | first :: rest, waiting, hmem => by
    rw [walkEvents]
    rcases List.mem_cons.1 hmem with rfl | hmem
    · rw [waitsAfter_unread h]
      rcases @waiting_mem_walkEvents config ownDatabase ⟨entry.path, cause⟩ rest with h | ⟨err, herr, hown⟩
      · exact .inl (List.mem_append_right _ h)
      · exact .inr ⟨err, List.mem_cons_of_mem _ herr, hown⟩
    · rcases unread_mem_walkEvents h hmem with h | ⟨err, herr, hown⟩
      · exact .inl (List.mem_append_right _ h)
      · exact .inr ⟨err, List.mem_cons_of_mem _ herr, hown⟩

/-- **Every event is an item's own, or that of a directory without its identity.** -/
theorem of_mem_walkEvents {e : WalkEvent} :
    ∀ {items : List WalkItem} {waiting : Option Unverified},
      e ∈ walkEvents config ownDatabase waiting items →
      (∃ u, waiting = some u ∧ e = .error u.cause) ∨
        (∃ item ∈ items, leftOut config ownDatabase item = some e) ∨
        ∃ entry cause, .ok entry ∈ items ∧ Unread entry cause ∧ e = .error cause
  | [], waiting, h => by
    cases waiting with
    | none => simp [walkEvents] at h
    | some u => exact .inl ⟨u, rfl, by simpa [walkEvents] using h⟩
  | item :: rest, waiting, h => by
    rw [walkEvents, itemEvents, List.mem_append, List.mem_append] at h
    rcases h with (h | h) | h
    · cases item with
      | error err => simp [settledBy] at h
      | ok entry =>
        cases waiting with
        | none => simp [settledBy] at h
        | some u => exact .inl ⟨u, rfl, by simpa [settledBy] using h⟩
    · exact .inr (.inl ⟨item, List.mem_cons_self, Option.mem_toList.1 h⟩)
    · rcases of_mem_walkEvents h with ⟨u, hu, rfl⟩ | ⟨item', hitem, hleft⟩ | ⟨entry, cause, hentry, hrest⟩
      · cases item with
        | error err =>
          left
          obtain ⟨hwait, -⟩ := Option.filter_eq_some_iff.1 hu
          exact ⟨u, hwait, rfl⟩
        | ok entry =>
          obtain ⟨hunread, -⟩ := waitsAfter_entry hu
          exact .inr (.inr ⟨entry, u.cause, List.mem_cons_self, hunread, rfl⟩)
      · exact .inr (.inl ⟨item', List.mem_cons_of_mem _ hitem, hleft⟩)
      · exact .inr (.inr ⟨entry, cause, List.mem_cons_of_mem _ hentry, hrest⟩)

/-- Every item is one event at most. -/
theorem length_walkEvents_le :
    ∀ (items : List WalkItem) (waiting : Option Unverified),
      (walkEvents config ownDatabase waiting items).length ≤
        items.length + waiting.toList.length
  | [], waiting => by
    cases waiting <;> simp [walkEvents]
  | .error err :: rest, waiting => by
    have hrest := length_walkEvents_le rest (waitsAfter waiting (.error err))
    have hwait : (waitsAfter waiting (.error err)).toList.length ≤ waiting.toList.length := by
      cases waiting with
      | none => simp [waitsAfter]
      | some u =>
        simp only [waitsAfter, Option.filter_some]
        split <;> simp
    rw [walkEvents, itemEvents, List.length_append]
    simp only [settledBy, leftOut, List.length_cons, Option.toList_none, Option.toList_some,
      List.nil_append, List.length_nil]
    omega
  | .ok entry :: rest, waiting => by
    have hrest := length_walkEvents_le rest (waitsAfter waiting (.ok entry))
    have hsettled : (settledBy waiting (.ok entry)).toList.length = waiting.toList.length := by
      cases waiting <;> simp [settledBy]
    -- A directory that waits is an event later on, and none by itself.
    have hone : (leftOut config ownDatabase (.ok entry)).toList.length +
        (waitsAfter waiting (.ok entry)).toList.length ≤ 1 := by
      cases htype : entry.fileType with
      | none => simp [leftOut, waitsAfter, htype]
      | some t =>
        cases t with
        | file =>
          cases hjudge : judgeFile config ownDatabase entry <;>
            simp [leftOut, waitsAfter, htype, hjudge]
        | dir => cases hfound : entry.metadata <;> simp [leftOut, waitsAfter, htype, hfound]
        | other => simp [leftOut, waitsAfter, htype]
    rw [walkEvents, itemEvents, List.length_append, List.length_append, List.length_cons]
    omega

end Items

/-! ## The ledger of a finished walk -/

section Walk

variable {walker : Walker} {config : WalkConfig} {ownDatabase : List (Nat × Nat)}
  {cancel : Nat → Bool}

/-- Of a list of parts, only one of which has what is counted. -/
theorem countP_flatMap_one {α β : Type} {f : α → List β} {P : β → Bool} {a : α} {l : List α}
    (hnodup : l.Nodup) (ha : a ∈ l) (hother : ∀ b ∈ l, b ≠ a → (f b).countP P = 0) :
    (l.flatMap f).countP P = (f a).countP P := by
  have hzero : ∀ m : List α, (∀ b ∈ m, (f b).countP P = 0) → (m.flatMap f).countP P = 0 := by
    intro m hm
    rw [List.countP_flatMap]
    refine List.sum_eq_zero fun n hn => ?_
    obtain ⟨b, hb, rfl⟩ := List.mem_map.1 hn
    exact hm b hb
  obtain ⟨front, back, rfl⟩ := List.append_of_mem ha
  obtain ⟨-, hback, hdisjoint⟩ := List.nodup_append.1 hnodup
  rw [List.flatMap_append, List.flatMap_cons, List.countP_append, List.countP_append,
    hzero front fun b hb => hother b (List.mem_append_left _ hb) ?_,
    hzero back fun b hb => hother b (by simp [hb]) ?_]
  · omega
  · rintro rfl
    exact (List.nodup_cons.1 hback).1 hb
  · rintro rfl
    exact hdisjoint b hb b List.mem_cons_self rfl

/-- Every root has its key. -/
theorem zip_keys {keys : List PathKey} (hkeys : rootKeys config.roots = .ok keys) :
    (config.roots.zip keys).map Prod.snd = keys := by
  refine List.map_snd_zip ?_
  have := congrArg List.length (rootKeys_ok hkeys).1
  rw [List.length_map, List.length_map] at this
  omega

theorem mem_zip_keys {keys : List PathKey} {root : Path × PathKey}
    (h : root ∈ config.roots.zip keys) : root.2 ∈ keys := (List.of_mem_zip h).2

/-- What events of a property a ledger counts for cells inside one root: those of that root. -/
theorem countsOf_root {keys : List PathKey} (hkeys : rootKeys config.roots = .ok keys)
    {perRoot : OrdMap PathKey OmissionCounts}
    (hcounts : ∀ P, countsOf perRoot P =
      ((config.roots.zip keys).flatMap (rootEvents walker config ownDatabase)).countP
        fun e => P e.1 e.2.1 e.2.2)
    {root : Path × PathKey} (hroot : root ∈ config.roots.zip keys)
    (Q : PathKey → OmissionReason → Bool)
    (hin : ∀ d r, Q d r = true → d.isAtOrUnder root.2 = true) :
    countsOf perRoot (fun _ d r => Q d r) =
      (walkEvents config ownDatabase none (walker.items [root.1])).countP
        fun e => Q (e.cell root.2) e.reason := by
  obtain ⟨hapart, hnodup⟩ := rootKeys_apart hkeys
  rw [← zip_keys hkeys] at hnodup
  rw [hcounts, countP_flatMap_one (List.Nodup.of_map Prod.snd hnodup) hroot]
  · rw [rootEvents, List.countP_map]
    rfl
  · intro other hother hne
    rw [List.countP_eq_zero]
    intro e he hQ
    obtain ⟨ev, -, rfl⟩ := List.mem_map.1 he
    have hunder := hin _ _ hQ
    have hown : (ev.cell other.2).isAtOrUnder other.2 = true := by
      cases ev with
      | child p r => exact attributeChild_inside p
      | error err => exact errorCell_inside err other.2
    have hsame : other.2 = root.2 := by
      rcases PathKey.isAtOrUnder_total hown hunder with h | h
      · exact (hapart root.2 (mem_zip_keys hroot) other.2 (mem_zip_keys hother) h).symm
      · exact hapart other.2 (mem_zip_keys hother) root.2 (mem_zip_keys hroot) h
    -- The keys of the roots are distinct, so one key is one place in the list.
    exact hne (List.inj_on_of_nodup_map hnodup hother hroot hsame)

/-- The events of one root that are counted at or under a directory. -/
def eventsUnder (walker : Walker) (config : WalkConfig) (ownDatabase : List (Nat × Nat))
    (root : Path × PathKey) (key : PathKey) (r : OmissionReason) : Nat :=
  (walkEvents config ownDatabase none (walker.items [root.1])).countP fun e =>
    (e.cell root.2).isAtOrUnder key && decide (e.reason = r)

/-- And its walk errors that are counted at the root itself. -/
def rootErrors (walker : Walker) (config : WalkConfig) (ownDatabase : List (Nat × Nat))
    (root : Path × PathKey) : Nat :=
  (walkEvents config ownDatabase none (walker.items [root.1])).countP fun e =>
    decide (e.reason = .walkError ∧ e.cell root.2 = root.2)

/-- **What the ledger tells of a directory** is the events at or under it, and below the root the
root's own walk errors. -/
theorem told_events {keys : List PathKey} (hkeys : rootKeys config.roots = .ok keys)
    {perRoot : OrdMap PathKey OmissionCounts}
    (hcounts : ∀ P, countsOf perRoot P =
      ((config.roots.zip keys).flatMap (rootEvents walker config ownDatabase)).countP
        fun e => P e.1 e.2.1 e.2.2)
    {root : Path × PathKey} (hroot : root ∈ config.roots.zip keys) {key : PathKey}
    (hin : key.isAtOrUnder root.2 = true) (r : OmissionReason) :
    told (cellsOf perRoot) root.2 key r = eventsUnder walker config ownDatabase root key r +
      if key ≠ root.2 ∧ r = .walkError then rootErrors walker config ownDatabase root else 0 := by
  unfold told eventsUnder rootErrors
  have hbelow := countsOf_root hkeys hcounts hroot
    (fun d r' => d.isAtOrUnder key && decide (r' = r)) fun d r' h =>
      PathKey.isAtOrUnder_trans (Bool.and_eq_true_iff.1 h).1 hin
  have hat := countsOf_root hkeys hcounts hroot
    (fun d r' => decide (r' = .walkError ∧ d = root.2)) fun d r' h => by
      rw [(of_decide_eq_true h).2]
      exact PathKey.isAtOrUnder_refl root.2
  unfold countsOf at hbelow hat
  rw [hbelow, hat]

/-- A walk that finished with an account, and the account committed. -/
structure CommittedWalk (walker : Walker) (config : WalkConfig) (ownDatabase : List (Nat × Nat))
    (files : List WalkedFile) (keys : List PathKey) (perRoot : OrdMap PathKey OmissionCounts)
    (snap : CompletenessSnapshot) : Prop where
  keyed : rootKeys config.roots = .ok keys
  files : files = (rootItems walker (config.roots.zip keys)).filterMap (kept config ownDatabase)
  counts : ∀ P, countsOf perRoot P =
    ((config.roots.zip keys).flatMap (rootEvents walker config ownDatabase)).countP
      fun e => P e.1 e.2.1 e.2.2
  built : Built snap config.roots (cellsOf perRoot)
  configured : snap.configured.Perm keys
  trusted : ∀ root ∈ keys, snap.trustedRoot root = true
  authority : snap.fullyAuthoritative = true

/-- **From a finished walk to a snapshot**: what was committed builds. -/
theorem walk_builds {files : List WalkedFile} {perRoot : OrdMap PathKey OmissionCounts}
    (hwalk : walkCollecting walker config ownDatabase cancel =
      .ok (.finished files (.publishable perRoot)))
    {scanId : Int} {l l' : OmissionLedger} (hconfig : l.config = some config.roots)
    (hcommit : OmissionLedger.commitOmissions scanId perRoot l = (.ok (), l')) :
    ∃ keys snap, CompletenessSnapshot.build config.roots l'.roots l'.omissions = .ok (.bounded snap) ∧
      CommittedWalk walker config ownDatabase files keys perRoot snap := by
  obtain ⟨keys, hkeys, -, hfiles, hcounts⟩ := walk_recorded hwalk
  obtain ⟨keys', snap, hkeys', hbuild, hconfigured, hauthority, htrusted, hcells⟩ :=
    committed_builds hconfig hcommit
  obtain rfl : keys = keys' := Except.ok.inj (hkeys.symm.trans hkeys')
  have hbuilt := build_built hbuild
  rw [hcells] at hbuilt
  exact ⟨keys, snap, hbuild, hkeys, hfiles, hcounts, hbuilt, hconfigured, htrusted, hauthority⟩

namespace CommittedWalk

variable {files : List WalkedFile} {keys : List PathKey} {perRoot : OrdMap PathKey OmissionCounts}
  {snap : CompletenessSnapshot} {root : Path × PathKey} {path : Path} {key : PathKey}

theorem trusts (w : CommittedWalk walker config ownDatabase files keys perRoot snap)
    (hroot : root ∈ config.roots.zip keys) (hkey : PathKey.new path = some key)
    (hin : key.isAtOrUnder root.2 = true) : Trusts snap path root.2 key :=
  ⟨hkey, w.built.owningRoot hkey (w.configured.mem_iff.2 (mem_zip_keys hroot)) hin,
    w.trusted root.2 (mem_zip_keys hroot)⟩

/-- **A directory is suppressed exactly for the events at or under it, and for the walk errors of
its whole root.** -/
theorem suppressed_iff (w : CommittedWalk walker config ownDatabase files keys perRoot snap)
    (hroot : root ∈ config.roots.zip keys) (hkey : PathKey.new path = some key)
    (hin : key.isAtOrUnder root.2 = true) :
    snap.disposition path = .suppressed ↔
      ∃ e ∈ walkEvents config ownDatabase none (walker.items [root.1]),
        (e.cell root.2).isAtOrUnder key = true ∨ e.reason = .walkError ∧ e.cell root.2 = root.2 := by
  have htold : (∃ r, 0 < told (cellsOf perRoot) root.2 key r) ↔
      ∃ e ∈ walkEvents config ownDatabase none (walker.items [root.1]),
        (e.cell root.2).isAtOrUnder key = true ∨
          e.reason = .walkError ∧ e.cell root.2 = root.2 := by
    constructor
    · rintro ⟨r, hr⟩
      rw [told_events w.keyed w.counts hroot hin, Nat.add_pos_iff_pos_or_pos] at hr
      rcases hr with hr | hr
      · obtain ⟨e, he, hP⟩ := List.countP_pos_iff.1 hr
        exact ⟨e, he, .inl (Bool.and_eq_true_iff.1 hP).1⟩
      · split at hr
        · obtain ⟨e, he, hP⟩ := List.countP_pos_iff.1 hr
          exact ⟨e, he, .inr (of_decide_eq_true hP)⟩
        · exact absurd hr (lt_irrefl 0)
    · rintro ⟨e, he, hunder | ⟨hreason, hcell⟩⟩
      · refine ⟨e.reason, ?_⟩
        rw [told_events w.keyed w.counts hroot hin]
        exact Nat.add_pos_left (List.countP_pos_iff.2 ⟨e, he, by simp [hunder]⟩) _
      · refine ⟨.walkError, ?_⟩
        rw [told_events w.keyed w.counts hroot hin]
        by_cases hat : key = root.2
        · refine Nat.add_pos_left (List.countP_pos_iff.2 ⟨e, he, ?_⟩) _
          rw [hcell, hat, PathKey.isAtOrUnder_refl, hreason]
          rfl
        · rw [if_pos ⟨hat, rfl⟩]
          exact Nat.add_pos_right _ (List.countP_pos_iff.2 ⟨e, he, by simp [hreason, hcell]⟩)
  rw [← htold]
  rcases w.built.disposition_eq (w.trusts hroot hkey hin) with ⟨hd, h⟩ | ⟨hd, h⟩
  · exact iff_of_true hd h
  · refine iff_of_false (by rw [hd]; decide) ?_
    rintro ⟨r, hr⟩
    rw [h r] at hr
    exact absurd hr (lt_irrefl 0)

theorem trusted_iff (w : CommittedWalk walker config ownDatabase files keys perRoot snap)
    (hroot : root ∈ config.roots.zip keys) (hkey : PathKey.new path = some key)
    (hin : key.isAtOrUnder root.2 = true) :
    snap.disposition path = .trusted ↔ ¬snap.disposition path = .suppressed := by
  rcases w.built.disposition_eq (w.trusts hroot hkey hin) with ⟨hd, -⟩ | ⟨hd, -⟩ <;>
    simp [hd]

/-- What a verdict of a directory below `/` has counted, when the figures fit. -/
theorem verdict_eq (w : CommittedWalk walker config ownDatabase files keys perRoot snap)
    (hroot : root ∈ config.roots.zip keys) (hkey : PathKey.new path = some key)
    (hin : key.isAtOrUnder root.2 = true) (hbelow : key.segments ≠ []) :
    Counted (fun r => eventsUnder walker config ownDatabase root key r +
      if key ≠ root.2 ∧ r = .walkError then rootErrors walker config ownDatabase root else 0)
      (snap.verdict path) := by
  have hcounted := w.built.verdict_counted (w.trusts hroot hkey hin)
  have hsame : (fun r => told (cellsOf perRoot) root.2 key r + again (cellsOf perRoot) key r) =
      fun r => eventsUnder walker config ownDatabase root key r +
        if key ≠ root.2 ∧ r = .walkError then rootErrors walker config ownDatabase root else 0 := by
    funext r
    rw [told_events w.keyed w.counts hroot hin, again, if_neg hbelow, Nat.add_zero]
  rw [hsame] at hcounted
  exact hcounted

end CommittedWalk

/-! ## Place by place -/

/-- What an error says of a directory: it has no single place inside the root, or the root is that
place, or it names a place at or under the directory. -/
def ErrorTouches (root : PathKey) (path : Path) (err : WalkError) : Prop :=
  (∀ place, ¬SinglePlace err root place) ∨ SinglePlace err root root ∨
    ∃ p ∈ errorPaths err, path <+: p

theorem errorTouches_iff {root key : PathKey} {path : Path} (hkey : PathKey.new path = some key)
    (hin : key.isAtOrUnder root = true) (err : WalkError) :
    ErrorTouches root path err ↔
      (errorCell err root).isAtOrUnder key = true ∨ errorCell err root = root := by
  have hspec := errorCell_spec err root
  constructor
  · rintro (hnone | hroot | ⟨p, hp, hpre⟩)
    · rcases hspec with h | ⟨-, h⟩
      · exact absurd h (hnone _)
      · exact .inr h
    · rcases hspec with h | ⟨h, -⟩
      · exact .inr (h.unique hroot)
      · exact absurd hroot (h root)
    · exact (errorCell_covers hkey hin hp hpre).symm
  · have hat : errorCell err root = root → ErrorTouches root path err := by
      intro h
      rcases hspec with hsingle | ⟨hnone, -⟩
      · rw [h] at hsingle
        exact .inr (.inl hsingle)
      · exact .inl hnone
    rintro (h | h)
    · rcases errorCell_place hkey h with hroot | hplace
      · exact hat hroot
      · exact .inr (.inr hplace)
    · exact hat h

/-- What an item leaves out that a directory of its root should hold. -/
def Touches (config : WalkConfig) (ownDatabase : List (Nat × Nat)) (root key : PathKey)
    (path : Path) : WalkItem → Prop
  | .error err => ErrorTouches root path err
  | .ok entry =>
    (leftOut config ownDatabase (.ok entry)).isSome = true ∧
        (path <+: entry.path ∧ path ≠ entry.path ∨ key = root) ∨
      ∃ cause, Unread entry cause ∧ ErrorTouches root path cause

/-- What the disposition of a directory says of the items of its root's walk. -/
structure Accounted (config : WalkConfig) (ownDatabase : List (Nat × Nat))
    (files : List WalkedFile) (items : List WalkItem) (root : PathKey)
    (snap : CompletenessSnapshot) (path : Path) (key : PathKey) : Prop where
  left : ∀ entry, .ok entry ∈ items → (leftOut config ownDatabase (.ok entry)).isSome = true →
    path <+: entry.path ∧ path ≠ entry.path ∨ key = root → snap.disposition path = .suppressed
  failed : ∀ err, .error err ∈ items → ErrorTouches root path err →
    snap.disposition path = .suppressed
  unread : ∀ entry cause, .ok entry ∈ items → Unread entry cause →
    entry.path ∈ errorPaths cause → path <+: entry.path → snap.disposition path = .suppressed
  clean : (∀ item ∈ items, ¬Touches config ownDatabase root key path item) →
    snap.disposition path = .trusted
  whole : snap.disposition path = .trusted → ∀ entry, .ok entry ∈ items →
    path <+: entry.path → path ≠ entry.path →
    entry.fileType = some .dir ∨ (∃ file ∈ files, file.path = entry.path) ∨
      ∃ found, entry.metadata = .ok found ∧ (found.device, found.inode) ∈ ownDatabase

theorem judgeFile_kept {entry : WalkEntry} {file : WalkedFile}
    (h : judgeFile config ownDatabase entry = .manifest file) : file.path = entry.path := by
  unfold judgeFile at h
  split at h
  · cases h
  · repeat' split at h
    all_goals cases h
    rfl

theorem judgeFile_own {entry : WalkEntry} (h : judgeFile config ownDatabase entry = .ownDatabase) :
    ∃ found, entry.metadata = .ok found ∧ (found.device, found.inode) ∈ ownDatabase := by
  unfold judgeFile at h
  split at h
  · cases h
  · rename_i found hfound
    split at h
    · rename_i hown
      exact ⟨found, hfound, List.contains_iff_mem.1 hown⟩
    · repeat' split at h
      all_goals cases h

theorem judgeFile_reason {entry : WalkEntry}
    (h : judgeFile config ownDatabase entry = .omitted .walkError) : False := by
  unfold judgeFile at h
  split at h
  · cases h
  · repeat' split at h
    all_goals cases h

/-- An entry that is no directory is a row, one of the three database files, or left out. -/
theorem entry_cases {entry : WalkEntry} :
    entry.fileType = some .dir ∨ (leftOut config ownDatabase (.ok entry)).isSome = true ∨
      (∃ file, kept config ownDatabase (.ok entry) = some file ∧ file.path = entry.path) ∨
      ∃ found, entry.metadata = .ok found ∧ (found.device, found.inode) ∈ ownDatabase := by
  cases htype : entry.fileType with
  | none => simp [leftOut, htype]
  | some t =>
    cases t with
    | file =>
      cases hjudge : judgeFile config ownDatabase entry with
      | manifest file =>
        exact .inr (.inr (.inl ⟨file, by simp [kept, htype, hjudge], judgeFile_kept hjudge⟩))
      | ownDatabase => exact .inr (.inr (.inr (judgeFile_own hjudge)))
      | omitted reason => simp [leftOut, htype, hjudge]
    | dir => exact .inl rfl
    | other => simp [leftOut, htype]

/-- **What a walk left out is what its directories are suppressed for.** Of a walk that finished,
with its account committed, every directory at or under a root is suppressed when an entry under
it was left out, when an error names a place at or under it or has no single place in the root, and
when a directory at or under it has no identity; it is trusted when nothing of the sort was met,
and then the manifest holds every file the walk saw under it. -/
theorem walk_disposition {files : List WalkedFile} {perRoot : OrdMap PathKey OmissionCounts}
    (hwalk : walkCollecting walker config ownDatabase cancel =
      .ok (.finished files (.publishable perRoot)))
    {scanId : Int} {l l' : OmissionLedger} (hconfig : l.config = some config.roots)
    (hcommit : OmissionLedger.commitOmissions scanId perRoot l = (.ok (), l')) :
    ∃ keys snap, rootKeys config.roots = .ok keys ∧
      CompletenessSnapshot.build config.roots l'.roots l'.omissions = .ok (.bounded snap) ∧
      ∀ root ∈ config.roots.zip keys, ∀ path key, PathKey.new path = some key →
        key.isAtOrUnder root.2 = true →
        Accounted config ownDatabase files (walker.items [root.1]) root.2 snap path key := by
  obtain ⟨keys, snap, hbuild, w⟩ := walk_builds hwalk hconfig hcommit
  refine ⟨keys, snap, w.keyed, hbuild, fun root hroot path key hkey hin => ?_⟩
  have hsuppressed := w.suppressed_iff hroot hkey hin
  have hleft : ∀ entry, .ok entry ∈ walker.items [root.1] →
      (leftOut config ownDatabase (.ok entry)).isSome = true →
      path <+: entry.path ∧ path ≠ entry.path ∨ key = root.2 →
      snap.disposition path = .suppressed := by
    intro entry hentry hsome hplace
    obtain ⟨e, he⟩ := Option.isSome_iff_exists.1 hsome
    obtain ⟨reason, rfl⟩ : ∃ reason, e = .child entry.path reason := by
      unfold leftOut at he
      simp only at he
      split at he
      · split at he
        · exact ⟨_, (Option.some.inj he).symm⟩
        · cases he
      · cases he
      · exact ⟨_, (Option.some.inj he).symm⟩
    refine hsuppressed.2 ⟨_, mem_walkEvents_of hentry he, .inl ?_⟩
    rcases hplace with ⟨hpre, hne⟩ | hat
    · exact attributeChild_covers hkey hin hpre hne
    · rw [hat]
      exact attributeChild_inside entry.path
  have hfailed : ∀ err, .error err ∈ walker.items [root.1] → ErrorTouches root.2 path err →
      snap.disposition path = .suppressed := by
    intro err herr htouches
    refine hsuppressed.2 ⟨.error err, mem_walkEvents_of herr rfl, ?_⟩
    exact ((errorTouches_iff hkey hin err).1 htouches).imp id fun h => ⟨rfl, h⟩
  refine ⟨hleft, hfailed, ?_, ?_, ?_⟩
  · intro entry cause hentry hunread hnames hpre
    rcases @unread_mem_walkEvents config ownDatabase _ _ hunread _ none hentry with
      h | ⟨err, herr, hown⟩
    · refine hsuppressed.2 ⟨_, h, ?_⟩
      exact ((errorTouches_iff hkey hin cause).1 (.inr (.inr ⟨_, hnames, hpre⟩))).imp id
        fun h => ⟨rfl, h⟩
    · -- The failure of its listing names the directory as well.
      refine hfailed err herr (.inr (.inr ⟨entry.path, ?_, hpre⟩))
      unfold isFailureOf at hown
      split at hown
      · rw [of_decide_eq_true hown]
        exact List.mem_cons_self
      · cases hown
  · intro hclean
    rw [w.trusted_iff hroot hkey hin, hsuppressed]
    rintro ⟨e, he, hcell⟩
    rcases of_mem_walkEvents he with ⟨u, hu, -⟩ | ⟨item, hitem, hleftOut⟩ |
      ⟨entry, cause, hentry, hunread, rfl⟩
    · cases hu
    · refine hclean item hitem ?_
      cases item with
      | error err =>
        cases hleftOut
        exact (errorTouches_iff hkey hin err).2 (hcell.imp id fun h => h.2)
      | ok entry =>
        refine .inl ⟨by rw [hleftOut]; rfl, ?_⟩
        unfold leftOut at hleftOut
        simp only at hleftOut
        have hchild : ∃ reason, e = .child entry.path reason ∧ reason ≠ .walkError := by
          split at hleftOut
          · split at hleftOut
            · rename_i reason hjudge
              refine ⟨reason, (Option.some.inj hleftOut).symm, ?_⟩
              rintro rfl
              exact judgeFile_reason hjudge
            · cases hleftOut
          · cases hleftOut
          · exact ⟨_, (Option.some.inj hleftOut).symm, by decide⟩
        obtain ⟨reason, rfl, hreason⟩ := hchild
        rcases hcell with hunder | ⟨hwalk, -⟩
        · exact attributeChild_place hkey hin hunder
        · exact absurd hwalk hreason
    · exact hclean _ hentry (.inr ⟨cause, hunread,
        (errorTouches_iff hkey hin cause).2 (hcell.imp id fun h => h.2)⟩)
  · intro htrusted entry hentry hpre hne
    rcases @entry_cases config ownDatabase entry with h | h | ⟨file, hkept, hfile⟩ | h
    · exact .inl h
    · exact absurd (hleft entry hentry h (.inl ⟨hpre, hne⟩))
        ((w.trusted_iff hroot hkey hin).1 htrusted)
    · refine .inr (.inl ⟨file, ?_, hfile⟩)
      rw [w.files]
      exact List.mem_filterMap.2 ⟨.ok entry, List.mem_flatMap.2 ⟨root, hroot, hentry⟩, hkept⟩
    · exact .inr (.inr h)

theorem isName_tree : isName [116] = true := by decide

theorem isName_small : isName [97] = true := by decide

theorem isName_sub : isName [98] = true := by decide

theorem isName_large : isName [99] = true := by decide

theorem isName_failed : isName [100] = true := by decide

theorem isName_unread : isName [97, 97] = true := by decide

theorem isName_other : isName [117] = true := by decide

/-- A directory `/t` of a small file, a directory without its identity, one with a larger
    file and one that could not be listed. -/
def treeItems : List WalkItem :=
  [.ok ⟨[.rootDir, .normal ⟨[116], isName_tree⟩], [116], some .dir, .ok ⟨0, 0, 0, 0, 0, 1, 1, 2⟩⟩,
    .ok ⟨[.rootDir, .normal ⟨[116], isName_tree⟩, .normal ⟨[97], isName_small⟩], [97], some .file,
      .ok ⟨5, 0, 0, 0, 0, 1, 2, 1⟩⟩,
    .ok ⟨[.rootDir, .normal ⟨[116], isName_tree⟩, .normal ⟨[97, 97], isName_unread⟩], [97, 97],
      some .dir, .error (.withPath [.rootDir, .normal ⟨[116], isName_tree⟩,
        .normal ⟨[97, 97], isName_unread⟩] (.io "denied"))⟩,
    .ok ⟨[.rootDir, .normal ⟨[116], isName_tree⟩, .normal ⟨[98], isName_sub⟩], [98], some .dir,
      .ok ⟨0, 0, 0, 0, 0, 1, 3, 2⟩⟩,
    .ok ⟨[.rootDir, .normal ⟨[116], isName_tree⟩, .normal ⟨[98], isName_sub⟩,
      .normal ⟨[99], isName_large⟩], [99], some .file, .ok ⟨20, 0, 0, 0, 0, 1, 4, 1⟩⟩,
    .error (.withPath [.rootDir, .normal ⟨[116], isName_tree⟩, .normal ⟨[100], isName_failed⟩]
      (.io "denied"))]

/-- A directory `/u` of one file. -/
def otherItems : List WalkItem :=
  [.ok ⟨[.rootDir, .normal ⟨[117], isName_other⟩], [117], some .dir, .ok ⟨0, 0, 0, 0, 0, 1, 6, 2⟩⟩,
    .ok ⟨[.rootDir, .normal ⟨[117], isName_other⟩, .normal ⟨[99], isName_large⟩], [99], some .file,
      .ok ⟨20, 0, 0, 0, 0, 1, 7, 1⟩⟩]

def walkedTree : Walker where
  overrides := fun _ => .ok ()
  items := fun roots =>
    if roots = [[.rootDir, .normal ⟨[116], isName_tree⟩]] then treeItems else otherItems

/-- Files of ten bytes and more. -/
def walkedConfig : WalkConfig :=
  ⟨[[.rootDir, .normal ⟨[116], isName_tree⟩], [.rootDir, .normal ⟨[117], isName_other⟩]], [], 10,
    none, []⟩

/-- The small file suppresses `/t`, the failures `/t/d` and `/t/aa`; `/t/b` is trusted. -/
theorem walk_disposition_tree :
    ∃ files perRoot l' snap,
      walkCollecting walkedTree walkedConfig [] (fun _ => false) =
        .ok (.finished files (.publishable perRoot)) ∧
      OmissionLedger.commitOmissions 1 perRoot (OmissionLedger.beginScan walkedConfig.roots) =
        (.ok (), l') ∧
      CompletenessSnapshot.build walkedConfig.roots l'.roots l'.omissions = .ok (.bounded snap) ∧
      snap.disposition [.rootDir, .normal ⟨[116], isName_tree⟩] = .suppressed ∧
      snap.disposition [.rootDir, .normal ⟨[116], isName_tree⟩, .normal ⟨[98], isName_sub⟩] =
        .trusted ∧
      snap.disposition [.rootDir, .normal ⟨[116], isName_tree⟩, .normal ⟨[100], isName_failed⟩] =
        .suppressed ∧
      snap.disposition [.rootDir, .normal ⟨[116], isName_tree⟩, .normal ⟨[97, 97], isName_unread⟩] =
        .suppressed := by
  obtain ⟨keys, snap, hkeys, hbuild, haccounted⟩ :=
    @walk_disposition walkedTree walkedConfig [] (fun _ => false) _ _ rfl 1
      (OmissionLedger.beginScan walkedConfig.roots) _ rfl rfl
  refine ⟨_, _, _, snap, rfl, rfl, hbuild, ?_, ?_, ?_, ?_⟩
  · cases hkeys
    exact (haccounted _ List.mem_cons_self _ _ rfl rfl).left _
      (List.mem_cons_of_mem _ List.mem_cons_self) rfl (.inr rfl)
  · cases hkeys
    refine (haccounted _ List.mem_cons_self _ _ rfl rfl).clean fun item hitem => ?_
    have hmem : item ∈ treeItems := hitem
    simp only [treeItems, List.mem_cons, List.not_mem_nil, or_false] at hmem
    rcases hmem with rfl | rfl | rfl | rfl | rfl | rfl
    · simp [Touches, leftOut, Unread]
    · simp [Touches, leftOut, judgeFile, walkedConfig, Unread]
    · rintro (⟨hleft, -⟩ | ⟨cause, ⟨-, hcause⟩, h⟩)
      · cases hleft
      · cases hcause
        exact absurd ((errorTouches_iff rfl rfl _).1 h) (by decide)
    · simp [Touches, leftOut, Unread]
    · simp [Touches, leftOut, judgeFile, walkedConfig, Unread, isUtf8Path]
      decide
    · exact fun h => absurd ((errorTouches_iff rfl rfl _).1 h) (by decide)
  · cases hkeys
    exact (haccounted _ List.mem_cons_self _ _ rfl rfl).failed _ (.tail _ (.tail _ (.tail _
      (.tail _ (.tail _ (.head _)))))) (.inr (.inr ⟨_, List.mem_cons_self, List.prefix_refl _⟩))
  · cases hkeys
    exact (haccounted _ List.mem_cons_self _ _ rfl rfl).unread _ _ (.tail _ (.tail _ (.head _)))
      ⟨rfl, rfl⟩ List.mem_cons_self (List.prefix_refl _)

end Walk

end DedupCommando
