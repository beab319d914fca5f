import DedupCommando.Model.OmissionCells
import DedupCommando.Store.OmissionLedger

/-!
# How a root earns and loses its authority

A root's generation is positive only while the rows under it are one commit's own.

* `Kept` — what every operation but a commit does to the roots that stay trusted: nothing.
* `commitOmissions_ok` — what a commit checks, and what it leaves behind.
* `LedgerHistory`, `AuthorityEarned` — the runs of a scan's ledger, and the invariant they keep.
* `ledger_lifecycle` — the whole lifecycle, over every run.
-/

set_option autoImplicit false

namespace DedupCommando

open OmissionLedger

/-! ## What the other operations keep -/

/-- The rows stored under one root. -/
def OmissionLedger.rowsUnder (l : OmissionLedger) (root : Bytes) : List StoredOmission :=
  l.omissions.filter fun row => decide (row.rootKey = root)

/-- A root that is trusted afterwards was trusted before, over the same rows. -/
def Kept (l l' : OmissionLedger) : Prop :=
  ∀ root g, (root, g) ∈ l'.roots → 0 < g →
    (root, g) ∈ l.roots ∧ l'.rowsUnder root = l.rowsUnder root

theorem Kept.refl (l : OmissionLedger) : Kept l l := fun _ _ h _ => ⟨h, rfl⟩

theorem Kept.trans {l l' l'' : OmissionLedger} (h₁ : Kept l l') (h₂ : Kept l' l'') :
    Kept l l'' := by
  intro root g hmem hg
  obtain ⟨hmem', hrows'⟩ := h₂ root g hmem hg
  obtain ⟨hmem'', hrows''⟩ := h₁ root g hmem' hg
  exact ⟨hmem'', hrows'.trans hrows''⟩

/-- Folding an operation that keeps the trusted roots keeps them. -/
theorem Kept.foldl {α : Type} {f : OmissionLedger → α → OmissionLedger}
    (hf : ∀ l a, Kept l (f l a)) : ∀ (as : List α) (l : OmissionLedger), Kept l (as.foldl f l)
  | [], l => Kept.refl l
  | a :: as, l => (hf l a).trans (Kept.foldl hf as (f l a))

/-- Deleting rows of one root, when its generation goes with them. -/
theorem kept_withdraw (l : OmissionLedger) (scope : ClearScope) (root : PathKey)
    (h : ∀ row, scope.covers row = true → row.rootKey = root.asStr) :
    Kept l ((l.deleteLedger scope).zeroGenerations (some root)) := by
  intro rk g hmem hg
  simp only [zeroGenerations, deleteLedger, Option.all_some, decide_eq_true_eq, List.mem_map] at hmem
  obtain ⟨⟨rk', g'⟩, hold, he⟩ := hmem
  split at he
  · cases he; exact absurd hg (lt_irrefl 0)
  · rename_i hne
    cases he
    refine ⟨hold, ?_⟩
    simp only [rowsUnder, zeroGenerations, deleteLedger, List.filter_filter]
    refine List.filter_congr fun row _ => ?_
    by_cases hr : row.rootKey = rk
    · have hscope : scope.covers row = false := by
        rw [Bool.eq_false_iff]
        exact fun hc => hne (hr ▸ h row hc)
      simp [hr, hscope]
    · simp [hr]

/-- Taking every authority away trusts nothing. -/
theorem kept_zero (l : OmissionLedger) (scope : ClearScope) :
    Kept l ((l.deleteLedger scope).zeroGenerations none) := by
  intro rk g hmem hg
  simp only [zeroGenerations, Option.all_none, if_true, List.mem_map] at hmem
  obtain ⟨e, -, he⟩ := hmem
  cases he
  exact absurd hg (lt_irrefl 0)

theorem kept_dropRoot (l : OmissionLedger) (root : PathKey) : Kept l (l.dropRoot root) := by
  intro rk g hmem hg
  simp only [dropRoot, List.mem_filter, Bool.not_eq_true', decide_eq_false_iff_not] at hmem
  refine ⟨hmem.1, ?_⟩
  simp only [rowsUnder, dropRoot, List.filter_filter]
  refine List.filter_congr fun row _ => ?_
  by_cases hr : row.rootKey = rk
  · have : row.rootKey ≠ root.asStr := hr ▸ hmem.2
    simp [hr, hr ▸ this]
  · simp [hr]

theorem kept_insertRoot (l : OmissionLedger) (root : PathKey) : Kept l (l.insertRoot root) := by
  unfold insertRoot
  split
  · exact Kept.refl l
  · intro rk g hmem hg
    rcases List.mem_append.1 hmem with h | h
    · exact ⟨h, rfl⟩
    · cases List.mem_singleton.1 h
      exact absurd hg (lt_irrefl 0)

theorem kept_ensureRoots (l : OmissionLedger) : Kept l (ensureRoots l).2 := by
  unfold ensureRoots
  split
  · exact Kept.refl l
  · intro _ _ hmem _
    exact absurd hmem List.not_mem_nil
  · split
    · exact Kept.refl l
    · exact (Kept.foldl kept_dropRoot _ l).trans (Kept.foldl kept_insertRoot _ _)

theorem kept_dropResult {α : Type} {body : Tx OmissionLedger String α} {l : OmissionLedger}
    (h : Kept l (body l).2) : Kept l (dropResult body l).2 := by
  unfold dropResult
  split
  · rename_i hb; rw [hb] at h; exact h
  · rename_i hb; rw [hb] at h; exact h

theorem kept_atomically {α : Type} {body : Tx OmissionLedger String α} {l : OmissionLedger}
    (h : Kept l (body l).2) : Kept l (Tx.atomically body l).2 := by
  rcases Tx.atomically_cases body l with ⟨a, hbody, -⟩ | ⟨-, hsame⟩
  · rw [hbody] at h; exact h
  · rw [hsame]; exact Kept.refl l

/-- **No operation but a commit adds authority, and none takes a row from a root it leaves
trusted.** -/
theorem kept_run (scanId : Int) {op : LedgerOp} (hop : ∀ perRoot, op ≠ .commitOmissions perRoot)
    (l : OmissionLedger) : Kept l (op.run scanId l).2 := by
  cases op with
  | configure config => exact fun _ _ hmem _ => ⟨hmem, rfl⟩
  | ensureScanRoots => exact kept_atomically (kept_dropResult (kept_ensureRoots l))
  | clearFiles =>
    exact kept_atomically (kept_dropResult ((kept_zero l .wholeScan).trans (kept_ensureRoots _)))
  | commitOmissions perRoot => exact absurd rfl (hop perRoot)
  | clearOmissionsUnder directory =>
    refine kept_atomically ?_
    unfold clearOmissionsUnder
    split
    · exact Kept.refl l
    · split
      · exact Kept.refl l
      · split
        · exact Kept.refl l
        · refine kept_withdraw l _ _ fun row hrow => ?_
          simp only [ClearScope.covers, Bool.and_eq_true, decide_eq_true_eq] at hrow
          exact hrow.1
  | clearRootOmissions root =>
    refine kept_atomically ?_
    unfold clearRootOmissions
    split
    · exact Kept.refl l
    · split
      · exact Kept.refl l
      · split
        · refine kept_withdraw l _ _ fun row hrow => ?_
          simpa only [ClearScope.covers, decide_eq_true_eq] using hrow
        · exact Kept.refl l
  | clearScanOmissions => exact kept_atomically (kept_zero l .wholeScan)

/-! ## What a commit leaves behind -/

/-- The rows that record one root's cells. -/
def storedRows (root : PathKey) (generation : Int) (cells : List (PathKey × OmissionReason × EventCount)) :
    List StoredOmission :=
  cells.map fun c => ⟨root.asStr, c.1.asStr, c.2.1.asStr, c.2.2.get, generation⟩

theorem insertCounts_ok {root : PathKey} {generation : Int} :
    ∀ {cells : List (PathKey × OmissionReason × EventCount)} {l l' : OmissionLedger},
      insertCounts root generation cells l = (.ok (), l') →
      l' = { l with omissions := l.omissions ++ storedRows root generation cells }
  | [], l, l', h => by
    cases h
    simp [storedRows]
  | (directory, reason, count) :: rest, l, l', h => by
    unfold insertCounts at h
    split at h
    · cases h
    · rename_i events hevents
      split at h
      · cases h
      · rw [insertCounts_ok h]
        have hcount : events = count.get := by
          unfold EventCount.toI64 at hevents
          split at hevents
          · cases hevents; rfl
          · cases hevents
        simp [storedRows, hcount]

theorem insertAll_ok {generation : Int} :
    ∀ {perRoot : List (PathKey × OmissionCounts)} {l l' : OmissionLedger},
      insertAll generation perRoot l = (.ok (), l') →
      l' = { l with omissions := l.omissions ++
        perRoot.flatMap fun e => storedRows e.1 generation e.2.iter }
  | [], l, l', h => by
    cases h
    simp
  | (root, counts) :: rest, l, l', h => by
    unfold insertAll at h
    split at h
    · cases h
    · rename_i l₁ hcounts
      rw [insertAll_ok h, insertCounts_ok hcounts]
      simp

/-- The rows of one key among the rows of a whole map. -/
theorem filter_storedRows {generation : Int} {key : PathKey} {counts : OmissionCounts} :
    ∀ {es : List (PathKey × OmissionCounts)}, es.Pairwise (fun a b => a.1 < b.1) →
      (key, counts) ∈ es →
      (es.flatMap fun e => storedRows e.1 generation e.2.iter).filter
        (fun row => decide (row.rootKey = key.asStr)) = storedRows key generation counts.iter
  | [], _, h => absurd h List.not_mem_nil
  | e :: es, hs, h => by
    obtain ⟨he, hes⟩ := List.pairwise_cons.1 hs
    have hown : (storedRows e.1 generation e.2.iter).filter
        (fun row => decide (row.rootKey = key.asStr)) =
          if e.1 = key then storedRows e.1 generation e.2.iter else [] := by
      unfold storedRows
      rw [List.filter_map]
      split
      · rename_i hk
        rw [List.filter_eq_self.2]
        intro c _
        simp [hk]
      · rename_i hk
        rw [List.filter_eq_nil_iff.2, List.map_nil]
        intro c _
        simpa using fun h => hk (PathKey.asStr_injective h)
    rw [List.flatMap_cons, List.filter_append, hown]
    rcases List.mem_cons.1 h with rfl | hmem
    · rw [if_pos rfl]
      have hrest : (es.flatMap fun e => storedRows e.1 generation e.2.iter).filter
          (fun row => decide (row.rootKey = key.asStr)) = [] := by
        rw [List.filter_eq_nil_iff]
        intro row hrow
        obtain ⟨e', he', hr⟩ := List.mem_flatMap.1 hrow
        obtain ⟨c, -, rfl⟩ := List.mem_map.1 hr
        simpa using fun h => (he e' he').ne (PathKey.asStr_injective h).symm
      rw [hrest, List.append_nil]
    · rw [if_neg (he _ hmem).ne, List.nil_append, filter_storedRows hes hmem]

theorem decodeRoots_ok :
    ∀ {raws : List (Bytes × Int)} {out : List (PathKey × Int)}, decodeRoots raws = .ok out →
      raws = out.map fun e => (e.1.asStr, e.2)
  | [], out, h => by cases h; rfl
  | (raw, generation) :: rest, out, h => by
    unfold decodeRoots at h
    split at h
    · cases h
    · split at h
      · cases h
      · rename_i key hkey
        split at h
        · cases h
        · rename_i out' hrest
          cases h
          rw [decodeRoots_ok hrest, List.map_cons, PathKey.fromStored_ok hkey]

theorem registeredRoots_ok {l : OmissionLedger} {stored : List (PathKey × Int)}
    (h : l.registeredRoots = .ok stored) {raw : Bytes} {g : Int} :
    (raw, g) ∈ l.roots ↔ ∃ key, (key, g) ∈ stored ∧ key.asStr = raw := by
  have hperm := List.perm_insertionSort (fun a b : Bytes × Int => a.1 ≤ b.1) l.roots
  rw [← hperm.mem_iff, decodeRoots_ok h, List.mem_map]
  constructor
  · rintro ⟨⟨key, g'⟩, hm, he⟩
    cases he
    exact ⟨key, hm, rfl⟩
  · rintro ⟨key, hm, rfl⟩
    exact ⟨(key, g), hm, rfl⟩

/-- What a commit has checked when it succeeds, and what its rows and generations are then. -/
structure Committed (l : OmissionLedger) (perRoot : OrdMap PathKey OmissionCounts)
    (l' : OmissionLedger) : Prop where
  roots : ∃ configured persisted stored, l.config = some configured ∧
    rootKeys configured = .ok persisted ∧ l.registeredRoots = .ok stored ∧
    ∀ key, (key ∈ persisted ↔ key ∈ stored.map Prod.fst) ∧ (key ∈ persisted ↔ key ∈ perRoot.keys)
  inside : ∀ root counts, perRoot.get? root = some counts →
    ∀ cell ∈ counts.iter, cell.1.isAtOrUnder root = true
  together : ∃ generation, l.nextGeneration = .ok generation ∧
    l'.roots = l.roots.map (fun e => (e.1, generation)) ∧
    l'.omissions = perRoot.entries.flatMap fun e => storedRows e.1 generation e.2.iter
  config : l'.config = l.config

theorem commitRefusal_none {scanId : Int} {l : OmissionLedger}
    {perRoot : OrdMap PathKey OmissionCounts} (h : commitRefusal scanId l perRoot = none) :
    (∃ configured persisted stored, l.config = some configured ∧
      rootKeys configured = .ok persisted ∧ l.registeredRoots = .ok stored ∧
      ∀ key, (key ∈ persisted ↔ key ∈ stored.map Prod.fst) ∧
        (key ∈ persisted ↔ key ∈ perRoot.keys)) ∧
    ∀ root counts, perRoot.get? root = some counts →
      ∀ cell ∈ counts.iter, cell.1.isAtOrUnder root = true := by
  unfold commitRefusal at h
  split at h
  · cases h
  · cases h
  rename_i persisted hpersisted
  split at h
  · cases h
  rename_i stored hstored
  simp only at h
  split at h
  · cases h
  split at h
  · cases h
  rename_i hne hsame
  split at h
  · cases h
  rename_i hmissing
  split at h
  · cases h
  rename_i hextra
  split at h
  · cases h
  rename_i hinside
  have hsame : (stored.map Prod.fst).insertionSort (· ≤ ·) = persisted := not_not.1 hsame
  have hperm := List.perm_insertionSort (· ≤ ·) (stored.map Prod.fst)
  obtain ⟨configured, keys, hconfig, hkeys, hsorted⟩ : ∃ configured keys,
      l.config = some configured ∧ rootKeys configured = .ok keys ∧
        persisted = keys.insertionSort (· ≤ ·) := by
    unfold persistedRootKeys at hpersisted
    split at hpersisted
    · cases hpersisted
    · rename_i configured hconfig
      split at hpersisted
      · cases hpersisted
      · split at hpersisted
        · cases hpersisted
        · rename_i keys hkeys
          cases hpersisted
          exact ⟨configured, keys, hconfig, hkeys, rfl⟩
  have hregistered : ∀ key, key ∈ keys ↔ key ∈ stored.map Prod.fst := by
    intro key
    rw [← hperm.mem_iff, hsame, hsorted, (List.perm_insertionSort (· ≤ ·) keys).mem_iff]
  refine ⟨⟨configured, keys, stored, hconfig, hkeys, hstored, fun key => ⟨hregistered key, ?_⟩⟩, ?_⟩
  · rw [hregistered key, ← hperm.mem_iff]
    constructor
    · intro hk
      have := List.find?_eq_none.1 hmissing key hk
      exact OrdMap.contains_iff.1 (by simpa using this)
    · intro hk
      have := List.find?_eq_none.1 hextra key hk
      simpa using this
  · intro root counts hget cell hcell
    have := List.findSome?_eq_none_iff.1 hinside (root, counts) (OrdMap.mem_entries.2 hget)
    rw [Option.map_eq_none_iff, List.find?_eq_none] at this
    simpa using this cell hcell

/-- **What a successful commit is.** -/
theorem commitOmissions_ok {scanId : Int} {l l' : OmissionLedger}
    {perRoot : OrdMap PathKey OmissionCounts}
    (h : commitOmissions scanId perRoot l = (.ok (), l')) : Committed l perRoot l' := by
  unfold commitOmissions at h
  split at h
  · cases h
  rename_i hrefusal
  split at h
  · cases h
  rename_i generation hgeneration
  split at h
  · cases h
  rename_i l₁ hinsert
  cases h
  obtain ⟨hroots, hinside⟩ := commitRefusal_none hrefusal
  have hl₁ := insertAll_ok hinsert
  have hempty : (l.deleteLedger .wholeScan).omissions = [] := by
    simp [deleteLedger, ClearScope.covers]
  rw [hempty, List.nil_append] at hl₁
  subst hl₁
  exact ⟨hroots, hinside, ⟨generation, hgeneration, rfl, rfl⟩, rfl⟩

/-! ## Runs -/

/-- A commit that succeeded: the map it was given and the ledger it left. -/
structure CommitRecord where
  perRoot : OrdMap PathKey OmissionCounts
  after : OmissionLedger

/-- A scan's ledger with the commits it has seen, the latest first. -/
structure LedgerHistory where
  ledger : OmissionLedger
  commits : List CommitRecord

def LedgerHistory.step (scanId : Int) (r : LedgerHistory) (op : LedgerOp) : LedgerHistory :=
  let after := op.run scanId r.ledger
  ⟨after.2, match op, after.1 with
    | .commitOmissions perRoot, .ok () => ⟨perRoot, after.2⟩ :: r.commits
    | _, _ => r.commits⟩

/-- A scan from its beginning through a list of operations. -/
def runLedger (scanId : Int) (config : List Path) (ops : List LedgerOp) : LedgerHistory :=
  ops.foldl (LedgerHistory.step scanId) ⟨beginScan config, []⟩

/-- A trusted root holds the rows of the latest commit's map for it, and no others. -/
def AuthorityEarned (r : LedgerHistory) : Prop :=
  ∀ root g, (root, g) ∈ r.ledger.roots → 0 < g →
    ∃ commit rest, r.commits = commit :: rest ∧ (root, g) ∈ commit.after.roots ∧
      ∃ key counts, key.asStr = root ∧ commit.perRoot.get? key = some counts ∧
        r.ledger.rowsUnder root = storedRows key g counts.iter

theorem AuthorityEarned.kept {r : LedgerHistory} {l' : OmissionLedger} (h : AuthorityEarned r)
    (hkept : Kept r.ledger l') : AuthorityEarned ⟨l', r.commits⟩ := by
  intro root g hmem hg
  obtain ⟨hold, hrows⟩ := hkept root g hmem hg
  obtain ⟨commit, rest, hcommits, hafter, key, counts, hkey, hget, hstored⟩ := h root g hold hg
  exact ⟨commit, rest, hcommits, hafter, key, counts, hkey, hget, hrows.trans hstored⟩

theorem AuthorityEarned.committed {l l' : OmissionLedger} {perRoot : OrdMap PathKey OmissionCounts}
    (h : Committed l perRoot l') (rest : List CommitRecord) :
    AuthorityEarned ⟨l', ⟨perRoot, l'⟩ :: rest⟩ := by
  intro root g hmem hg
  refine ⟨⟨perRoot, l'⟩, rest, rfl, hmem, ?_⟩
  obtain ⟨generation, -, hroots, hrows⟩ := h.together
  obtain ⟨configured, persisted, stored, -, -, hstored, hsets⟩ := h.roots
  simp only at hmem ⊢
  rw [hroots] at hmem
  obtain ⟨⟨raw, g'⟩, hold, he⟩ := List.mem_map.1 hmem
  cases he
  obtain ⟨key, hkey, hraw⟩ := (registeredRoots_ok hstored).1 hold
  have hpersisted : key ∈ persisted := (hsets key).1.2 (List.mem_map.2 ⟨(key, g'), hkey, rfl⟩)
  obtain ⟨counts, hcounts⟩ : ∃ counts, perRoot.get? key = some counts :=
    Option.isSome_iff_exists.1 (OrdMap.contains_iff.2 ((hsets key).2.1 hpersisted))
  refine ⟨key, counts, hraw, hcounts, ?_⟩
  simp only [rowsUnder, hrows, ← hraw]
  exact filter_storedRows perRoot.sorted (OrdMap.mem_entries.2 hcounts)

theorem AuthorityEarned.step {scanId : Int} {r : LedgerHistory} (h : AuthorityEarned r)
    (op : LedgerOp) : AuthorityEarned (r.step scanId op) := by
  by_cases hop : ∃ perRoot, op = .commitOmissions perRoot
  · obtain ⟨perRoot, rfl⟩ := hop
    unfold LedgerHistory.step
    generalize hrun : LedgerOp.run scanId (.commitOmissions perRoot) r.ledger = after
    obtain ⟨res, l'⟩ := after
    cases res with
    | ok u =>
      exact AuthorityEarned.committed (commitOmissions_ok (Tx.atomically_ok.1 hrun)) r.commits
    | error e =>
      -- A commit that refused has been rolled back.
      obtain rfl := Tx.atomically_error hrun
      exact h
  · have hcommits : (r.step scanId op).commits = r.commits := by
      cases op with
      | commitOmissions perRoot => exact absurd ⟨perRoot, rfl⟩ hop
      | _ => rfl
    have := h.kept (kept_run scanId (fun perRoot he => hop ⟨perRoot, he⟩) r.ledger)
    rw [← hcommits] at this
    exact this

theorem authorityEarned_run (scanId : Int) (config : List Path) (ops : List LedgerOp) :
    AuthorityEarned (runLedger scanId config ops) := by
  have hbegin : AuthorityEarned ⟨beginScan config, []⟩ := by
    intro root g hmem hg
    have := (kept_atomically (kept_ensureRoots ⟨some config, [], []⟩)) root g hmem hg
    exact absurd this.1 List.not_mem_nil
  have hfold : ∀ (ops : List LedgerOp) (r : LedgerHistory), AuthorityEarned r →
      AuthorityEarned (ops.foldl (LedgerHistory.step scanId) r) := by
    intro ops
    induction ops with
    | nil => exact fun _ h => h
    | cons op ops ih => exact fun r h => ih _ (h.step op)
  exact hfold ops _ hbegin

/-- **A ledger's authority over its whole life.** In every state of every run: a root with a
positive generation holds exactly the rows of one commit's map for it, the latest commit; a commit
succeeds only over the configured, registered and reported roots alike, with every directory in
its root, and then gives every root one generation; any other operation that takes a row from a
root leaves that root without authority; and a refused operation changes nothing. -/
theorem ledger_lifecycle (scanId : Int) (config : List Path) (ops : List LedgerOp) :
    AuthorityEarned (runLedger scanId config ops) ∧
    ∀ op : LedgerOp, ∀ l' : OmissionLedger,
      (∀ perRoot, op = .commitOmissions perRoot →
        op.run scanId (runLedger scanId config ops).ledger = (.ok (), l') →
        Committed (runLedger scanId config ops).ledger perRoot l') ∧
      ((∀ perRoot, op ≠ .commitOmissions perRoot) →
        ∀ row ∈ (runLedger scanId config ops).ledger.omissions,
          row ∉ (op.run scanId (runLedger scanId config ops).ledger).2.omissions →
          ∀ g, (row.rootKey, g) ∈ (op.run scanId (runLedger scanId config ops).ledger).2.roots →
            g ≤ 0) ∧
      (∀ e, op.run scanId (runLedger scanId config ops).ledger = (.error e, l') →
        l' = (runLedger scanId config ops).ledger) := by
  refine ⟨authorityEarned_run scanId config ops, fun op l' => ⟨?_, ?_, ?_⟩⟩
  · rintro perRoot rfl hrun
    exact commitOmissions_ok (Tx.atomically_ok.1 hrun)
  · intro hop row hrow hgone g hmem
    by_contra hg
    have hrows := (kept_run scanId hop _ row.rootKey g hmem (not_le.1 hg)).2
    have hin : row ∈ (runLedger scanId config ops).ledger.rowsUnder row.rootKey :=
      List.mem_filter.2 ⟨hrow, by simp⟩
    rw [← hrows] at hin
    exact hgone (List.mem_filter.1 hin).1
  · intro e hrun
    cases op with
    | configure config => cases hrun
    | ensureScanRoots => exact Tx.atomically_error hrun
    | clearFiles => exact Tx.atomically_error hrun
    | commitOmissions perRoot => exact Tx.atomically_error hrun
    | clearOmissionsUnder directory => exact Tx.atomically_error hrun
    | clearRootOmissions root => exact Tx.atomically_error hrun
    | clearScanOmissions =>
      exact Tx.atomically_error (show Tx.atomically clearScanOmissions _ = _ from hrun)

end DedupCommando
