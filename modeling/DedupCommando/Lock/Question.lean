import DedupCommando.Lock.Invariant

/-!
# The question before a rename

* `names_safe`, `lies_above_safe` — the two questions, asked call by call while others work.
* `part_listed_safe` — **a name the question lets pass is neither the lock name nor on the way to
  it.**
-/

set_option autoImplicit false

namespace DedupCommando.Lock

open Program (Safe)

variable {names : List Name} {s s' : Shared}

/-! ## The question -/

section Question

variable {tree₀ : Tree} {t : Task}

theorem lock_path_absolute :
    lock_path (Tree.absolute names) = Tree.absolute (names ++ [LOCK_FILE]) := by
  simp [lock_path, Path.join, Path.isAbsolute, Tree.absolute]

/-- The directories above the lock file are among the names the question asks about. -/
theorem absolute_mem_parents {front : List Name} (h : front <+: names) :
    Tree.absolute front ∈ Path.parents (lock_path (Tree.absolute names)) := by
  obtain ⟨rest, rfl⟩ := h
  rw [lock_path_absolute, Path.parents, List.mem_filter, List.mem_map]
  refine ⟨⟨front.length + 1, ?_, ?_⟩, by simp [Tree.absolute]⟩
  · simp only [List.mem_reverse, List.mem_range, Tree.absolute, List.length_cons, List.length_map,
      List.length_append, List.length_nil]
    omega
  · rw [Tree.absolute, Tree.absolute, List.take_succ_cons, ← List.map_take, List.append_assoc,
      List.take_left]

theorem isAt_safe {dir : InodeId} {above : Path} :
    Safe (rules names tree₀ t) (fun b _ => b = false → ∀ front n, front ++ [n] <+: names →
      above = Tree.absolute (front ++ [n]) → tree₀.descend tree₀.root (front ++ [n]) ≠ some dir)
      (isAt dir above) s := by
  unfold isAt
  refine safe_ask rfl ?_
  intro u luck r u' hu hexec hfits
  have hluck := hfits.identityAt above rfl
  subst hluck
  simp only [exec, Option.some.injEq, Prod.mk.injEq] at hexec
  obtain ⟨rfl, rfl⟩ := hexec
  have hseen : ∀ front n, front ++ [n] <+: names → above = Tree.absolute (front ++ [n]) →
      tree₀.descend tree₀.root (front ++ [n]) = some dir →
        u.tree.lstat (u.processes t.pid).cwd above = .ok dir := by
    rintro front n hfront rfl hdir
    exact Tree.lstat_absolute ((hu.way _ hfront).trans hdir)
  split
  · rename_i theirs htheirs
    refine Safe.done fun hb front n hfront habove hdir => ?_
    rw [hseen front n hfront habove hdir, Except.ok.injEq] at htheirs
    exact of_decide_eq_false hb htheirs.symm
  · rename_i e he
    refine Safe.done fun _ front n hfront habove hdir => ?_
    rw [hseen front n hfront habove hdir] at he
    cases he

theorem lies_above_safe {listed : List Listed} {dir : InodeId} :
    Safe (rules names tree₀ t) (fun b _ => b = false →
      (∃ kept ∈ listed, kept.name = lock_path (Tree.absolute names)) →
        ∀ front n, front ++ [n] <+: names → tree₀.descend tree₀.root (front ++ [n]) ≠ some dir)
      (lies_above listed dir) s := by
  refine Safe.mono (Safe.anyM (P := fun kept => ∀ above ∈ kept.name.parents, ∀ front n,
    front ++ [n] <+: names → above = Tree.absolute (front ++ [n]) →
      tree₀.descend tree₀.root (front ++ [n]) ≠ some dir) ?_) ?_
  · intro kept _ u
    exact Safe.anyM fun above _ v => isAt_safe
  · rintro b u hb hfalse ⟨kept, hkept, hname⟩ front n hfront
    refine hb hfalse kept hkept _ ?_ front n hfront rfl
    rw [hname]
    exact absolute_mem_parents hfront

theorem directory_safe {dir : Path} {P : Option InodeId → Prop}
    (h : ∀ u, Inv names tree₀ u → Fits names t (.statDot dir) .plain u →
      P (u.tree.statDot (u.processes t.pid).cwd dir).toOption) :
    Safe (rules names tree₀ t) (fun found _ => P found) (directory dir) s := by
  unfold directory
  refine safe_ask rfl ?_
  intro u luck r u' hu hexec hfits
  have hluck := hfits.statDot dir rfl
  subst hluck
  simp only [exec, Option.some.injEq, Prod.mk.injEq] at hexec
  obtain ⟨rfl, rfl⟩ := hexec
  exact Safe.done (h u hu hfits)

variable {src dest : Path} {way : Option InodeId} {sd : InodeId}

/-- The loop of the question by name: passing it, the source lies elsewhere. -/
theorem namesFrom_safe (hop : t.op = .rename src dest way)
    (hsd : tree₀.descend tree₀.root names = some sd) {name : Name} :
    ∀ {listed : List Listed} {ours : Option (Option InodeId)} {s : Shared},
      (∀ found, ours = some found → found = way) →
      Safe (rules names tree₀ t) (fun b _ => b = false →
        (∃ kept ∈ listed, kept.name = lock_path (Tree.absolute names)) →
          name = LOCK_FILE → way ≠ some sd)
        (namesFrom name src.dropLast ours listed) s
  | [], ours, s, _ => by
    refine Safe.done ?_
    rintro - ⟨kept, hkept, -⟩
    exact absurd hkept List.not_mem_nil
  | kept :: rest, ours, s, hours => by
    have hlock : kept.name = lock_path (Tree.absolute names) →
        kept.name.fileName = some LOCK_FILE ∧ kept.name.parent = some (Tree.absolute names) := by
      intro hkept
      have hparent : Path.parent (Tree.absolute (names ++ [LOCK_FILE])) =
          some (Tree.absolute names) := by
        have hlast : (Tree.absolute (names ++ [LOCK_FILE])).getLast? =
            some (.normal LOCK_FILE) := by
          rw [Tree.absolute, List.map_append, ← List.cons_append]
          exact List.getLast?_concat
        rw [Path.parent, hlast]
        exact congrArg some Tree.dropLast_absolute_snoc
      rw [hkept, lock_path_absolute]
      exact ⟨Tree.fileName_absolute_snoc, hparent⟩
    -- what the rest of the list says is enough unless this entry is the lock's
    have hrest : ∀ {ours' : Option (Option InodeId)} {u : Shared},
        (∀ found, ours' = some found → found = way) →
        (kept.name = lock_path (Tree.absolute names) → name = LOCK_FILE → way ≠ some sd) →
        Safe (rules names tree₀ t) (fun b _ => b = false →
          (∃ kept' ∈ kept :: rest, kept'.name = lock_path (Tree.absolute names)) →
            name = LOCK_FILE → way ≠ some sd)
          (namesFrom name src.dropLast ours' rest) u := by
      intro ours' u hours' hthis
      refine Safe.mono (namesFrom_safe hop hsd hours') ?_
      rintro b v hb hfalse ⟨kept', hkept', hname'⟩ hname
      rcases List.mem_cons.1 hkept' with rfl | hkept'
      · exact hthis hname' hname
      · exact hb hfalse ⟨kept', hkept', hname'⟩ hname
    rw [namesFrom]
    split
    · split
      · rename_i hnone
        refine hrest hours fun hkept _ => ?_
        rw [(hlock hkept).2] at hnone
        cases hnone
      · rename_i theirDir htheir
        have hfound : Safe (rules names tree₀ t) (fun found _ => found = way)
            (remembered src.dropLast ours) s := by
          cases ours with
          | some found => exact Safe.done (hours found rfl)
          | none => exact directory_safe fun u _ hfits => hfits.way src dest way hop
        refine Safe.bind hfound ?_
        rintro found u rfl
        split
        · exact hrest (fun _ h => (Option.some.inj h).symm) fun _ _ h => (by cases h)
        · rename_i i
          refine Safe.bind (directory_safe (P := fun theirs =>
            kept.name = lock_path (Tree.absolute names) → theirs = some sd) ?_) ?_
          · intro v hv _ hkept
            rw [(hlock hkept).2, Option.some.injEq] at htheir
            rw [← htheir, Tree.statDot, Tree.walk_descend ((hv.way names List.prefix_rfl).trans hsd)]
            rfl
          · intro theirs v htheirs
            split
            · exact Safe.done fun h => absurd h Bool.noConfusion
            · rename_i hne
              refine hrest (fun _ h => (Option.some.inj h).symm) fun hkept _ h => hne ?_
              rw [htheirs hkept, h]
    · rename_i hne
      refine hrest hours fun hkept hname => absurd ?_ hne
      rw [(hlock hkept).1, hname]

theorem names_safe (hop : t.op = .rename src dest way)
    (hsd : tree₀.descend tree₀.root names = some sd) {listed : List Listed} :
    Safe (rules names tree₀ t) (fun b _ => b = false →
      (∃ kept ∈ listed, kept.name = lock_path (Tree.absolute names)) →
        src.fileName = some LOCK_FILE → way ≠ some sd)
      (Lock.names listed src) s := by
  unfold Lock.names
  split
  · rename_i name dir hname hdir
    have hdrop : dir = src.dropLast := by
      unfold Path.parent at hdir
      split at hdir
      all_goals cases hdir
      rfl
    subst hdrop
    refine Safe.mono (namesFrom_safe hop hsd fun _ h => (by cases h)) ?_
    intro b u hb hfalse hkept hlock
    rw [hname, Option.some.injEq] at hlock
    exact hb hfalse hkept hlock
  · rename_i hnone
    refine Safe.done fun _ _ hlock => ?_
    -- a name that ends in a normal component has a parent
    unfold Path.fileName at hlock
    split at hlock
    · rename_i n hlast
      refine absurd ?_ (hnone n src.dropLast (by rw [Path.fileName, hlast]))
      rw [Path.parent, hlast]
    · cases hlock

theorem look_ok {path : Path} {luck : Luck} {looked : Looked}
    (h : exec t (.look path) luck s = some (.ok looked, s')) :
    s.tree.lstat (s.processes t.pid).cwd path = .ok looked.thing ∧
      looked.isDir = s.tree.isDirectory looked.thing := by
  simp only [exec] at h
  split at h
  · cases h
  · split at h
    · cases h
    · rename_i i hi
      cases h
      exact ⟨hi, rfl⟩
  · cases h

/-- A name on the way is a directory's, and the same one all along. -/
theorem way_step (hs : Inv names tree₀ s) (hsd : tree₀.descend tree₀.root names = some sd)
    {front back : List Name} {n : Name} {d : InodeId} (hnames : names = front ++ n :: back)
    (hd : tree₀.descend tree₀.root front = some d) :
    ∃ j, s.tree.entry d n = some j ∧ s.tree.isDirectory j = true ∧
      front ++ [n] <+: names ∧ tree₀.descend tree₀.root (front ++ [n]) = some j := by
  have hsplit : names = (front ++ [n]) ++ back := by rw [hnames, List.append_assoc]; rfl
  have hprefix : front ++ [n] <+: names := ⟨back, hsplit.symm⟩
  have hsome : ∃ j, tree₀.descend tree₀.root (front ++ [n]) = some j := by
    rw [hsplit, Tree.descend_append, Option.bind_eq_some_iff] at hsd
    exact hsd.imp fun j hj => hj.1
  obtain ⟨j, hj⟩ := hsome
  obtain ⟨x, hx, hentry, hdir⟩ := Tree.descend_snoc.1 ((hs.way _ hprefix).trans hj)
  have hfront : front <+: names := ⟨n :: back, hnames.symm⟩
  have hxd : x = d := Option.some.inj (hx.symm.trans ((hs.way _ hfront).trans hd))
  exact ⟨j, hxd ▸ hentry, hdir, hprefix, hj⟩

/-- **What the question lets pass is neither the lock name nor on the way to it.** -/
theorem part_listed_safe (hop : t.op = .rename src dest way)
    (hsd : tree₀.descend tree₀.root names = some sd) {listed : List Listed}
    (hlisted : ∃ kept ∈ listed, kept.name = lock_path (Tree.absolute names)) :
    Safe (rules names tree₀ t) (fun r _ => r = .ok none →
      ∀ n d, src.fileName = some n → way = some d → Clear names tree₀ n d)
      (part_listed listed src) s := by
  unfold part_listed
  refine safe_ask rfl ?_
  intro u luck r u' hu hexec hfits
  split
  · exact Safe.done fun h => (by cases h)
  · rename_i looked
    obtain ⟨hlstat, hisDir⟩ := look_ok hexec
    have hthing : ∀ n d, src.fileName = some n → way = some d →
        u.tree.entry d n = some looked.thing := by
      intro n d hn hd
      have hway := hfits.way src dest way hop
      rw [hd] at hway
      rw [Tree.lstat, hn] at hlstat
      dsimp only at hlstat
      split at hlstat
      · cases hlstat
      · rename_i d' hd'
        rw [hd'] at hway
        cases hway
        split at hlstat
        · cases hlstat
        · rename_i i hi
          cases hlstat
          exact hi
    split
    · rename_i hdir
      refine Safe.bind lies_above_safe ?_
      intro b v hb
      cases b with
      | true => exact Safe.done fun h => (by cases h)
      | false =>
        refine Safe.done fun _ n d hn hd => ⟨?_, ?_⟩
        · intro front back hnames hfront
          obtain ⟨j, hj, -, hprefix, hdescend⟩ := way_step hu hsd hnames hfront
          rw [hthing n d hn hd, Option.some.injEq] at hj
          exact hb rfl hlisted front n hprefix (hj ▸ hdescend)
        · intro hlock hdescend
          refine hfits.look src looked.thing d rfl hlstat
            ((hu.way names List.prefix_rfl).trans hdescend) (hisDir ▸ hdir) ?_
          rw [← hlock]
          exact hthing n d hn hd
    · rename_i hdir
      split
      · exact Safe.done fun h => (by cases h)
      · refine Safe.bind (names_safe hop hsd) ?_
        intro b v hb
        cases b with
        | true => exact Safe.done fun h => (by cases h)
        | false =>
          refine Safe.done fun _ n d hn hd => ⟨?_, ?_⟩
          · intro front back hnames hfront
            obtain ⟨j, hj, hjdir, -⟩ := way_step hu hsd hnames hfront
            rw [hthing n d hn hd, Option.some.injEq] at hj
            rw [hisDir, hj] at hdir
            exact hdir hjdir
          · intro hlock hdescend
            refine hb rfl hlisted (by rw [hn, hlock]) ?_
            rw [hd, ← hdescend, hsd]

end Question

end DedupCommando.Lock
