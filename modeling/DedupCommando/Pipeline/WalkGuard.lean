import DedupCommando.Pipeline.WalkComplete

/-!
# No directory is walked twice

* `builders` — the item lists of one walk, builder by builder.
* `walk_finished` — a walk that finished has noted every directory in one guard, and has run
  through each of its lists.
* `LeavesForGood`, `not_entered` — of an iterator that does not come back to a directory it left,
  no entry comes from under one whose identity could not be read.
* `ensureDisjoint_roots` — what accepted roots are to each other.
* `walk_guard` — one pathname for each directory, from the roots down.
-/

set_option autoImplicit false

namespace DedupCommando

variable {walker : Walker} {config : WalkConfig} {ownDatabase : List (Nat × Nat)}
  {cancel : Nat → Bool}

/-! ## The lists of a walk -/

/-- The items that one walk handles, builder by builder. -/
def builders (walker : Walker) (config : WalkConfig) : List (List WalkItem) :=
  match rootKeys config.roots with
  | .error _ => [walker.items config.roots]
  | .ok keys => (config.roots.zip keys).map fun root => walker.items [root.1]

/-- A list was walked to its end, beginning with no directory that waits. -/
def RanThrough (config : WalkConfig) (ownDatabase : List (Nat × Nat)) (cancel : Nat → Bool)
    (items : List WalkItem) : Prop :=
  ∃ entries n sink sink', sink.unverified = none ∧
    walkItems config ownDatabase cancel items entries sink = .ok (false, n, sink')

theorem walkRoots_ran :
    ∀ {roots : List (Path × PathKey)} {state state' : WalkState},
      walkRoots walker config ownDatabase cancel roots state = .ok (false, state') →
      ∀ root ∈ roots, RanThrough config ownDatabase cancel (walker.items [root.1])
  | [], _, _, _ => fun _ hm => absurd hm List.not_mem_nil
  | (path, key) :: rest, state, state', h => by
    unfold walkRoots at h
    split at h
    · cases h
    · cases h
    · rename_i entries sink hitems
      exact List.forall_mem_cons.2 ⟨⟨_, _, _, _, rfl, hitems⟩, walkRoots_ran h⟩

/-- **What a finished walk has been through.** -/
theorem walk_finished {files : List WalkedFile} {omissions : OmissionSnapshot}
    (h : walkCollecting walker config ownDatabase cancel = .ok (.finished files omissions)) :
    (∃ dirs : DirAliasGuard, ∀ items ∈ builders walker config, ∀ item ∈ items, ∀ p d i,
      notedAs item = some (p, d, i) → dirs.owner d i = some p) ∧
    (∀ items ∈ builders walker config, RanThrough config ownDatabase cancel items) ∧
    files = (builders walker config).flatten.filterMap (kept config ownDatabase) := by
  cases hkeys : rootKeys config.roots with
  | ok keys =>
    obtain ⟨state, hstate, rfl, -⟩ := walkCollecting_keyed hkeys h
    obtain ⟨-, hfiles, -, hnoted⟩ := walkRoots_ok hstate
    have hbuilders : builders walker config =
        (config.roots.zip keys).map fun root => walker.items [root.1] := by
      rw [builders, hkeys]
    rw [hbuilders]
    refine ⟨⟨state.dirs, fun items hitems item hitem => ?_⟩, fun items hitems => ?_, ?_⟩
    · obtain ⟨root, hroot, rfl⟩ := List.mem_map.1 hitems
      exact hnoted item (List.mem_flatMap.2 ⟨root, hroot, hitem⟩)
    · obtain ⟨root, hroot, rfl⟩ := List.mem_map.1 hitems
      exact walkRoots_ran hstate root hroot
    · rw [hfiles, List.nil_append, rootItems, List.flatMap_def]
  | error why =>
    have hbuilders : builders walker config = [walker.items config.roots] := by
      rw [builders, hkeys]
    unfold walkCollecting at h
    split at h
    · cases h
    split at h
    · cases h
    rw [hkeys] at h
    simp only at h
    split at h
    · cases h
    rename_i cancelled n sink hitems
    cases cancelled with
    | true => cases h
    | false =>
      obtain ⟨-, hfiles, -, hnoted⟩ := walkItems_ok hitems
      rw [hbuilders]
      refine ⟨⟨sink.dirs, fun items hmem item hitem => ?_⟩, fun items hmem => ?_, ?_⟩
      · obtain rfl := List.mem_singleton.1 hmem
        exact hnoted item hitem
      · obtain rfl := List.mem_singleton.1 hmem
        exact ⟨_, _, _, _, rfl, hitems⟩
      · rw [settleUnverified_files, hfiles] at h
        rw [List.flatten_cons, List.flatten_nil, List.append_nil]
        simp only [Bool.false_eq_true, if_false, List.nil_append] at h
        split at h <;> cases h <;> rfl

/-! ## A directory without its identity -/

/-- The item after which an iterator is done with a directory: an entry outside it, or the failure
of its listing. -/
def Leaves (dir : Path) : WalkItem → Prop
  | .ok entry => ¬dir <+: entry.path
  | .error err => isFailureOf err dir = true

/-- Depth first: what an iterator has left it does not come back to. -/
def LeavesForGood (items : List WalkItem) : Prop :=
  ∀ before dir between x after, items = before ++ .ok dir :: (between ++ x :: after) →
    Leaves dir.path x → ∀ inside, .ok inside ∈ after → ¬dir.path <+: inside.path

theorem walkItems_append :
    ∀ {front back : List WalkItem} {entries n : Nat} {sink sink' : Sink},
      walkItems config ownDatabase cancel (front ++ back) entries sink = .ok (false, n, sink') →
      ∃ n₁ sink₁, walkItems config ownDatabase cancel front entries sink = .ok (false, n₁, sink₁) ∧
        walkItems config ownDatabase cancel back n₁ sink₁ = .ok (false, n, sink')
  | [], _, entries, _, sink, _, h => ⟨entries, sink, rfl, h⟩
  | item :: front, back, entries, n, sink, sink', h => by
    rw [List.cons_append, walkItems] at h
    rw [walkItems]
    split at h
    · cases h
    rename_i hgo
    simp only [hgo, if_false]
    split at h
    · cases h
    exact walkItems_append h

/-- What comes while a directory waits does not come from under it. -/
theorem waiting_not_entered {u : Unverified} {inside : WalkEntry} :
    ∀ {items : List WalkItem} {entries n : Nat} {sink sink' : Sink},
      sink.unverified = some u →
      walkItems config ownDatabase cancel items entries sink = .ok (false, n, sink') →
      (∀ between x after, items = between ++ x :: after → Leaves u.dir x →
        ∀ e, .ok e ∈ after → ¬u.dir <+: e.path) →
      .ok inside ∈ items → ¬u.dir <+: inside.path
  | [], _, _, _, _, _, _, _, hmem => absurd hmem List.not_mem_nil
  | item :: rest, entries, n, sink, sink', hwait, h, hleaves, hmem => by
    unfold walkItems at h
    split at h
    · cases h
    split at h
    · cases h
    rename_i sink₁ hitem
    have habsorbed := absorb_ok hitem
    cases item with
    | ok entry =>
      have hout : ¬u.dir <+: entry.path := by
        intro hpre
        have := habsorbed.outside entry u rfl hwait
        rw [Path.startsWith, List.isPrefixOf_iff_prefix.2 hpre] at this
        cases this
      rcases List.mem_cons.1 hmem with heq | hmem
      · cases heq
        exact hout
      · exact hleaves [] (.ok entry) rest rfl hout inside hmem
    | error err =>
      rcases List.mem_cons.1 hmem with heq | hmem
      · cases heq
      by_cases hown : isFailureOf err u.dir = true
      · exact hleaves [] (.error err) rest rfl hown inside hmem
      · have hstill : sink₁.unverified = some u := by
          rw [habsorbed.waits, hwait]
          simp [waitsAfter, hown]
        refine waiting_not_entered hstill h (fun between x after heq => ?_) hmem
        exact hleaves (.error err :: between) x after (by rw [heq]; rfl)

/-- **The walk does not go into a directory whose identity it could not read.** -/
theorem not_entered {items : List WalkItem} (hran : RanThrough config ownDatabase cancel items)
    (hleaves : LeavesForGood items) {before after : List WalkItem} {entry inside : WalkEntry}
    {cause : WalkError} (hsplit : items = before ++ .ok entry :: after)
    (hunread : Unread entry cause) (hinside : .ok inside ∈ after) :
    ¬entry.path <+: inside.path := by
  obtain ⟨entries, n, sink, sink', -, h⟩ := hran
  rw [hsplit] at h
  obtain ⟨n₁, sink₁, -, hrest⟩ := walkItems_append h
  unfold walkItems at hrest
  split at hrest
  · cases hrest
  split at hrest
  · cases hrest
  rename_i sink₂ hitem
  have hwait : sink₂.unverified = some ⟨entry.path, cause⟩ := by
    rw [(absorb_ok hitem).waits]
    exact waitsAfter_unread hunread _
  refine @waiting_not_entered config ownDatabase cancel ⟨entry.path, cause⟩ inside _ _ _ _ _ hwait
    hrest (fun between x rest heq hx => ?_) hinside
  exact hleaves before entry between x rest (by rw [hsplit, heq]) hx

/-! ## Accepted roots -/

/-- **What accepted roots are to each other**, in whatever order they are given: different
spellings, and for two that could be resolved different directories without a common pathname. -/
theorem ensureDisjoint_roots {fs : RootLook} {roots : List Path}
    (h : ensureDisjoint fs roots = .ok ()) :
    (∀ roots', roots.Perm roots' → ensureDisjoint fs roots' = .ok ()) ∧
    ∀ (i j : Nat) (a b : Path), i ≠ j → roots[i]? = some a → roots[j]? = some b → a ≠ b ∧
      ∀ ca cb da db, fs.canonicalize a = some ca → fs.canonicalize b = some cb →
        fs.identity ca = some da → fs.identity cb = some db →
        da ≠ db ∧ ∀ rest rest', ca ++ rest ≠ cb ++ rest' := by
  refine ⟨fun roots' hperm => (validate_perm (hperm.map _)).1 h, fun i j a b hij ha hb => ?_⟩
  have hget : ∀ (k : Nat) (p : Path), roots[k]? = some p → (describe fs roots)[k]? =
      some ⟨p, (fs.canonicalize p).bind fun c => (fs.identity c).map fun id => ⟨c, id.1, id.2⟩⟩ := by
    intro k p hp
    rw [describe, List.getElem?_map, hp]
    rfl
  have hnone : collision
      ⟨a, (fs.canonicalize a).bind fun c => (fs.identity c).map fun id => ⟨c, id.1, id.2⟩⟩
      ⟨b, (fs.canonicalize b).bind fun c => (fs.identity c).map fun id => ⟨c, id.1, id.2⟩⟩ = none :=
    validate_collision h hij (hget i a ha) (hget j b hb)
  obtain ⟨hgiven, hresolved⟩ := collision_eq_none.1 hnone
  refine ⟨hgiven, fun ca cb da db hca hcb hda hdb => ?_⟩
  have hid := (hresolved ⟨ca, da.1, da.2⟩ ⟨cb, db.1, db.2⟩ (by simp [hca, hda])
    (by simp [hcb, hdb])).1
  refine ⟨fun he => hid (by rw [he]), fun rest rest' heq => ?_⟩
  refine @validate_apart _ h i j hij _ _ (hget i a ha) (hget j b hb) ⟨ca, da.1, da.2⟩
    ⟨cb, db.1, db.2⟩ (by simp [hca, hda]) (by simp [hcb, hdb]) (ca ++ rest) ⟨?_, ?_⟩
  · exact List.isPrefixOf_iff_prefix.2 (List.prefix_append ca rest)
  · rw [heq]
    exact List.isPrefixOf_iff_prefix.2 (List.prefix_append cb rest')

/-! ## The guard -/

/-- **No directory is walked under two pathnames.** Over roots that were accepted, a walk that
finished has seen each directory identity under one pathname, over all roots; two rows of one name
in directories of one identity are one row; nothing comes from under a directory whose identity
could not be read; and no pathname is common to two roots. -/
theorem walk_guard {fs : RootLook} (hroots : ensureDisjoint fs config.roots = .ok ())
    {files : List WalkedFile} {omissions : OmissionSnapshot}
    (hwalk : walkCollecting walker config ownDatabase cancel = .ok (.finished files omissions)) :
    (∀ items ∈ builders walker config, ∀ items' ∈ builders walker config, ∀ x ∈ items,
      ∀ x' ∈ items', ∀ p p' d i, notedAs x = some (p, d, i) → notedAs x' = some (p', d, i) →
        p = p') ∧
    (∀ items ∈ builders walker config, ∀ items' ∈ builders walker config, ∀ x ∈ items,
      ∀ x' ∈ items', ∀ p p' d i name, notedAs x = some (p, d, i) → notedAs x' = some (p', d, i) →
        ∀ file ∈ files, ∀ file' ∈ files, file.path = p ++ [.normal name] →
          file'.path = p' ++ [.normal name] → file.path = file'.path) ∧
    (∀ items ∈ builders walker config, LeavesForGood items → ∀ before entry after cause inside,
      items = before ++ .ok entry :: after → Unread entry cause → .ok inside ∈ after →
        ¬entry.path <+: inside.path) ∧
    (∀ (i j : Nat) (a b ca cb : Path) (da db : Nat × Nat) (rest rest' : Path), i ≠ j →
      config.roots[i]? = some a → config.roots[j]? = some b → fs.canonicalize a = some ca →
      fs.canonicalize b = some cb → fs.identity ca = some da → fs.identity cb = some db →
      ca ++ rest ≠ cb ++ rest') := by
  obtain ⟨⟨dirs, hdirs⟩, hran, -⟩ := walk_finished hwalk
  have hone : ∀ items ∈ builders walker config, ∀ items' ∈ builders walker config, ∀ x ∈ items,
      ∀ x' ∈ items', ∀ p p' d i, notedAs x = some (p, d, i) → notedAs x' = some (p', d, i) →
        p = p' := by
    intro items hitems items' hitems' x hx x' hx' p p' d i hp hp'
    have h := hdirs items hitems x hx p d i hp
    rw [hdirs items' hitems' x' hx' p' d i hp'] at h
    exact (Option.some.inj h).symm
  refine ⟨hone, ?_, ?_, ?_⟩
  · intro items hitems items' hitems' x hx x' hx' p p' d i name hp hp' file _ file' _ hfile hfile'
    rw [hfile, hfile', hone items hitems items' hitems' x hx x' hx' p p' d i hp hp']
  · intro items hitems hleaves before entry after cause inside hsplit hunread hinside
    exact not_entered (hran items hitems) hleaves hsplit hunread hinside
  · intro i j a b ca cb da db rest rest' hij ha hb hca hcb hda hdb
    exact (((ensureDisjoint_roots hroots).2 i j a b hij ha hb).2 ca cb da db hca hcb hda hdb).2
      rest rest'

/-- An item that nothing behind it leaves, or that nothing behind it is under. -/
theorem LeavesForGood.cons {item : WalkItem} {rest : List WalkItem} (h : LeavesForGood rest)
    (hitem : ∀ dir, item = .ok dir → (∀ x ∈ rest, ¬Leaves dir.path x) ∨
      ∀ inside, .ok inside ∈ rest → ¬dir.path <+: inside.path) : LeavesForGood (item :: rest) := by
  intro before dir between x after hsplit hleaves inside hinside
  cases before with
  | nil =>
    obtain ⟨hdir, rfl⟩ := List.cons.inj hsplit
    rcases hitem dir hdir with hnone | hunder
    · exact absurd hleaves (hnone x (by simp))
    · exact hunder inside (by simp [hinside])
  | cons first before =>
    obtain ⟨-, rfl⟩ := List.cons.inj hsplit
    exact h before dir between x after rfl hleaves inside hinside

/-- What the file system says of the two roots of `walkedTree`. -/
def treeLook : RootLook where
  canonicalize := some
  identity := fun path =>
    if path = [.rootDir, .normal ⟨[116], isName_tree⟩] then some (1, 1) else some (1, 6)
  metadata := fun _ => .ok .directory
  isThere := fun _ => true
  list := fun _ => .ok ()

theorem treeItems_leaves : LeavesForGood treeItems := by
  have hnil : LeavesForGood [] := fun before dir between x after hsplit => by simp at hsplit
  unfold treeItems
  refine (((((hnil.cons fun _ h => (by cases h)).cons ?_).cons ?_).cons ?_).cons ?_).cons ?_
  all_goals
    intro dir hdir
    cases hdir
    simp [Leaves, isFailureOf]

/-- Nothing comes from under `/t/aa`, and no directory of `/t` is one of `/u`. -/
theorem walk_guard_tree :
    ∃ files omissions, walkCollecting walkedTree walkedConfig [] (fun _ => false) =
        .ok (.finished files omissions) ∧
      (∀ x ∈ treeItems, ∀ x' ∈ otherItems, ∀ p p' d i, notedAs x = some (p, d, i) →
        notedAs x' = some (p', d, i) → p = p') ∧
      (∀ inside, .ok inside ∈ treeItems.drop 3 →
        ¬[.rootDir, .normal ⟨[116], isName_tree⟩, .normal ⟨[97, 97], isName_unread⟩] <+:
          inside.path) ∧
      ∀ rest rest' : Path, [.rootDir, .normal ⟨[116], isName_tree⟩] ++ rest ≠
        [.rootDir, .normal ⟨[117], isName_other⟩] ++ rest' := by
  obtain ⟨hone, -, hunread, hroots⟩ :=
    @walk_guard walkedTree walkedConfig [] (fun _ => false) treeLook rfl _ _ rfl
  refine ⟨_, _, rfl, ?_, fun inside hinside => ?_, fun rest rest' => ?_⟩
  · exact hone treeItems List.mem_cons_self otherItems (List.mem_cons_of_mem _ List.mem_cons_self)
  · exact hunread treeItems List.mem_cons_self treeItems_leaves (treeItems.take 2) _
      (treeItems.drop 3) _ inside rfl ⟨rfl, rfl⟩ hinside
  · exact hroots 0 1 _ _ _ _ (1, 1) (1, 6) rest rest' (by decide) rfl rfl rfl rfl rfl rfl

end DedupCommando
