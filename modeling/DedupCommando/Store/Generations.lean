import DedupCommando.Store.LeaseGrant
import DedupCommando.Store.LedgerLifecycle
import DedupCommando.Store.PanelFiles
import DedupCommando.Store.Publication
import DedupCommando.Store.Sweep

/-!
# The generations of a scan's publications and ledgers

Both kinds of generation are one above what the tables hold, and `clear_files` takes the rows away
that they are counted from.

* `ScanOp`, `ScanRun` — the operations of a scan, with every generation they have given out.
* `FreshStep`, `FreshRun` — no publication or commit begins the count again.
* `Identity` — no generation is given out twice, and what an earlier publication identified is
  stale for every reader and every lease.
* `identity_of_fresh`, `reuse_of_not_fresh` — that is what decides.
-/

set_option autoImplicit false

namespace DedupCommando

open Sql (Value)
open OmissionLedger

/-! ## The ledger's generation -/

/-- The highest generation that the ledger's rows hold. -/
def OmissionLedger.generation (l : OmissionLedger) : Int :=
  max (maxOrZero (l.roots.map Prod.snd)) (maxOrZero (l.omissions.map (·.generation)))

theorem nextGeneration_ok {l : OmissionLedger} {g : Int} (h : l.nextGeneration = .ok g) :
    g = l.generation + 1 := by
  unfold nextGeneration at h
  simp only at h
  split at h
  · cases h; rfl
  · cases h

theorem maxOrZero_of_all {l : List Int} {g : Int} (hall : ∀ x ∈ l, x = g) (hne : l ≠ []) :
    maxOrZero l = g := by
  obtain ⟨x, xs, rfl⟩ := List.exists_cons_of_ne_nil hne
  have hx : (x :: xs).max? = some g := by
    rw [List.max?_eq_some_iff]
    exact ⟨by simp [← hall x List.mem_cons_self], fun y hy => le_of_eq (hall y hy)⟩
  rw [maxOrZero, hx, Option.getD_some]

theorem generation_of_all {l : OmissionLedger} {g : Int} (hg : 0 ≤ g)
    (hroots : ∀ e ∈ l.roots, e.2 = g) (hne : l.roots ≠ [])
    (homissions : ∀ row ∈ l.omissions, row.generation = g) : l.generation = g := by
  have h₁ : maxOrZero (l.roots.map Prod.snd) = g :=
    maxOrZero_of_all (by simpa using fun a b hab => hroots (b, a) hab) (by simpa using hne)
  have h₂ : maxOrZero (l.omissions.map (·.generation)) ≤ g := by
    by_cases hnil : l.omissions = []
    · simpa [hnil, maxOrZero] using hg
    · exact le_of_eq (maxOrZero_of_all (by simpa using homissions) (by simpa using hnil))
  rw [generation, h₁, max_eq_left h₂]

/-- Every root is without authority and nothing is recorded. -/
def Blank (l : OmissionLedger) : Prop := (∀ e ∈ l.roots, e.2 = 0) ∧ l.omissions = []

theorem Blank.generation {l : OmissionLedger} (h : Blank l) : l.generation = 0 := by
  by_cases hne : l.roots = []
  · simp [OmissionLedger.generation, hne, h.2, maxOrZero]
  · exact generation_of_all le_rfl h.1 hne (by simp [h.2])

theorem Blank.dropRoot {l : OmissionLedger} (h : Blank l) (root : PathKey) : Blank (l.dropRoot root) :=
  ⟨fun e he => h.1 e (List.mem_filter.1 he).1, by simp [OmissionLedger.dropRoot, h.2]⟩

theorem Blank.insertRoot {l : OmissionLedger} (h : Blank l) (root : PathKey) :
    Blank (l.insertRoot root) := by
  unfold OmissionLedger.insertRoot
  split
  · exact h
  · refine ⟨fun e he => ?_, h.2⟩
    rcases List.mem_append.1 he with he | he
    · exact h.1 e he
    · rw [List.mem_singleton.1 he]

theorem Blank.foldl {α : Type} {f : OmissionLedger → α → OmissionLedger}
    (hf : ∀ l a, Blank l → Blank (f l a)) : ∀ (as : List α) {l : OmissionLedger},
      Blank l → Blank (as.foldl f l)
  | [], _, h => h
  | a :: as, _, h => Blank.foldl hf as (hf _ a h)

theorem Blank.ensureRoots {l : OmissionLedger} (h : Blank l) : Blank (ensureRoots l).2 := by
  unfold OmissionLedger.ensureRoots
  split
  · exact h
  · exact ⟨fun e he => absurd he List.not_mem_nil, rfl⟩
  · split
    · exact h
    · exact Blank.foldl (fun l a hl => hl.insertRoot a) _
        (Blank.foldl (fun l a hl => hl.dropRoot a) _ h)

theorem blank_clearFilesLedger (l : OmissionLedger) : Blank (clearFilesLedger l).2 := by
  refine Blank.ensureRoots ⟨fun e he => ?_, ?_⟩
  · simp only [zeroGenerations, Option.all_none, if_true, List.mem_map] at he
    obtain ⟨e', -, rfl⟩ := he
    rfl
  · simp [zeroGenerations, deleteLedger, ClearScope.covers]

theorem blank_beginScan (config : List Path) : Blank (beginScan config) := by
  have hstart : Blank ⟨some config, [], []⟩ := ⟨fun e he => absurd he List.not_mem_nil, rfl⟩
  unfold beginScan
  rcases Tx.atomically_cases ensureRoots ⟨some config, [], []⟩ with ⟨a, hbody, -⟩ | ⟨-, hsame⟩
  · have := hstart.ensureRoots
    rwa [hbody] at this
  · rw [hsame]; exact hstart

/-- A commit is refused while no root is registered. -/
theorem roots_ne_nil_of_commit {scanId : Int} {l l' : OmissionLedger}
    {perRoot : OrdMap PathKey OmissionCounts}
    (h : commitOmissions scanId perRoot l = (.ok (), l')) : l.roots ≠ [] := by
  intro hnil
  have hrefused : commitRefusal scanId l perRoot ≠ none := by
    have hstored : l.registeredRoots = .ok [] := by
      unfold registeredRoots
      rw [hnil]; rfl
    unfold commitRefusal
    split
    · simp
    · simp
    · rw [hstored]; simp
  unfold commitOmissions at h
  split at h
  · cases h
  · rename_i hnone; exact hrefused hnone

/-- **What a commit does to the ledger's generation.** -/
theorem generation_of_commit {scanId : Int} {l l' : OmissionLedger}
    {perRoot : OrdMap PathKey OmissionCounts} (hl : 0 ≤ l.generation)
    (h : commitOmissions scanId perRoot l = (.ok (), l')) : l'.generation = l.generation + 1 := by
  obtain ⟨g, hg, hroots, hrows⟩ := (commitOmissions_ok h).together
  have hgen := nextGeneration_ok hg
  subst hgen
  refine generation_of_all (by omega) ?_ ?_ ?_
  · rw [hroots]
    intro e he
    obtain ⟨e', -, rfl⟩ := List.mem_map.1 he
    rfl
  · rw [hroots]
    simpa using roots_ne_nil_of_commit h
  · rw [hrows]
    intro row hrow
    obtain ⟨entry, -, hrow⟩ := List.mem_flatMap.1 hrow
    obtain ⟨cell, -, rfl⟩ := List.mem_map.1 hrow
    rfl

/-! ## Runs -/

/-- The operations that begin, fill and publish a scan.  A walk made again is a `clearFiles` with
the `recordFiles` and the `commitOmissions` behind it. -/
inductive ScanOp where
  | publish (mode : PublishMode)
  | clearFiles
  | recordFiles (files : List ManifestRow)
  | commitOmissions (perRoot : OrdMap PathKey OmissionCounts)

/-- A scan with the generations it has given out, the latest first. -/
structure ScanRun where
  state : ScanState
  published : List Int
  committed : List Int

/-- One operation; a refused one changes nothing. -/
def ScanRun.step (scanId : Int) (hasScan : Bool) (r : ScanRun) (op : ScanOp) : ScanRun :=
  match op with
  | .publish mode =>
    match publishResults scanId hasScan mode r.state.tables with
    | (.ok generation, tables) =>
      ⟨⟨tables, r.state.ledger⟩, generation :: r.published, r.committed⟩
    | (.error _, tables) => ⟨⟨tables, r.state.ledger⟩, r.published, r.committed⟩
  | .clearFiles => ⟨(DedupCommando.clearFiles r.state).2, r.published, r.committed⟩
  | .recordFiles files =>
    ⟨⟨(DedupCommando.recordFiles files r.state.tables).2, r.state.ledger⟩, r.published, r.committed⟩
  | .commitOmissions perRoot =>
    match (LedgerOp.commitOmissions perRoot).run scanId r.state.ledger with
    | (.ok (), ledger) => ⟨⟨r.state.tables, ledger⟩, r.published, ledger.generation :: r.committed⟩
    | (.error _, ledger) => ⟨⟨r.state.tables, ledger⟩, r.published, r.committed⟩

/-- A scan as `begin_scan` leaves it. -/
def newScan (config : List Path) : ScanRun := ⟨⟨⟨[], [], [], none, none⟩, beginScan config⟩, [], []⟩

def runScan (scanId : Int) (hasScan : Bool) (config : List Path) (ops : List ScanOp) : ScanRun :=
  ops.foldl (ScanRun.step scanId hasScan) (newScan config)

/-- Nothing is published where the row of an earlier publication is gone, and no ledger is committed
where the generation of an earlier one is. -/
def FreshStep (r : ScanRun) : ScanOp → Prop
  | .publish _ => r.state.tables.membership = none → r.published = []
  | .commitOmissions _ => r.state.ledger.generation = 0 → r.committed = []
  | _ => True

/-- Every step of a list of operations is fresh where it is taken. -/
def FreshRun (scanId : Int) (hasScan : Bool) : ScanRun → List ScanOp → Prop
  | _, [] => True
  | r, op :: ops => FreshStep r op ∧ FreshRun scanId hasScan (r.step scanId hasScan op) ops

/-- Every reader that is given the identity finds it stale. -/
structure Snapshot.StaleAt (s : Snapshot) (id : GroupId) (current : Int) : Prop where
  gate : s.requireCurrent id = .error (.stale id.generation current)
  group : ∀ marks, s.group marks id = .error (.stale id.generation current)
  count : s.groupMemberCount id = .error (.stale id.generation current)
  witness : s.witnessOf [id] = .error (.stale id.generation current)
  among : ∀ ids, id ∈ ids → ∃ e, s.witnessOf ids = .error e

/-- No generation identifies two publications or two ledgers of a scan, and whatever carries the
generation of a publication that is not the current one is stale. -/
structure Identity (scanId : Int) (r : ScanRun) : Prop where
  publications : r.published.Nodup
  ledgers : r.committed.Nodup
  stale : ∀ g ∈ r.published.tail, r.state.tables.membership ≠ none →
    ∃ current, r.published.head? = some current ∧
    ∀ db : Database, db.hasScan scanId = true → db.tables scanId = r.state.tables →
      (∀ s, membershipSnapshot db scanId = .ok s → ∀ rank, 0 ≤ rank →
        s.StaleAt ⟨scanId, rank, g⟩ current) ∧
      (∀ w : PlanWitness, w.scanId = scanId → w.generation = g → preflight w = none →
        acquireMembershipLease none db w = .error (.stale g current))

/-! ## What a step gives out -/

/-- What every run keeps, fresh or not. -/
structure GenerationsKept (r : ScanRun) : Prop where
  current : ∀ mode generation, r.state.tables.membership = some (mode, generation) →
    ∃ g, r.published.head? = some g ∧ generation = .integer g ∧ 0 < g ∧
      (mode = .integer 1 ∨ mode = .integer 2)
  firstPublication : r.published ≠ [] → 1 ∈ r.published
  ledger : 0 ≤ r.state.ledger.generation
  head : 0 < r.state.ledger.generation → r.committed.head? = some r.state.ledger.generation
  firstLedger : r.committed ≠ [] → 1 ∈ r.committed

theorem nextPublication_ok {scanId g : Int} {membership : Option (Value × Value)}
    (h : nextPublication scanId membership = .ok g) :
    (membership = none ∧ g = 1) ∨
      ∃ mode p, membership = some (mode, .integer p) ∧ 0 < p ∧ g = p + 1 := by
  unfold nextPublication at h
  split at h
  · cases h; exact .inl ⟨rfl, rfl⟩
  · rename_i mode previous
    simp only at h
    split at h
    · rename_i p
      split at h
      · rename_i hp
        split at h
        · cases h; exact .inr ⟨mode, p, rfl, hp, rfl⟩
        · cases h
      · cases h
    · cases h

/-- **What a publication that succeeds has done to the authority.** -/
theorem publishResults_membership {scanId g : Int} {hasScan : Bool} {mode : PublishMode}
    {t t' : ScanTables} (h : publishResults scanId hasScan mode t = (.ok g, t')) :
    nextPublication scanId t.membership = .ok g ∧
      t'.membership = some (.integer mode.value, .integer g) := by
  have hbody := Tx.atomically_ok.1 h
  unfold publishBody at hbody
  split at hbody
  · cases hbody
  rename_i generation hnext
  split at hbody
  · cases hbody
  split at hbody
  · cases hbody
  simp only at hbody
  split at hbody
  · cases hbody; exact ⟨hnext, rfl⟩
  · cases hbody

theorem PublishMode.value_cases (mode : PublishMode) :
    Value.integer mode.value = .integer 1 ∨ Value.integer mode.value = .integer 2 := by
  cases mode
  · exact .inl rfl
  · exact .inr rfl

theorem insertFiles_membership : ∀ {files : List ManifestRow} {t t' : ScanTables} {res : Except AppError Unit},
    insertFiles files t = (res, t') → t'.membership = t.membership
  | [], t, t', res, h => by cases h; rfl
  | file :: files, t, t', res, h => by
    unfold insertFiles at h
    split at h
    · cases h; rfl
    · simp only at h
      have hrest := insertFiles_membership h
      exact hrest

theorem recordFiles_membership (files : List ManifestRow) (t : ScanTables) :
    (recordFiles files t).2.membership = t.membership := by
  rcases Tx.atomically_cases (insertFiles files) t with ⟨a, hbody, -⟩ | ⟨-, hsame⟩
  · exact insertFiles_membership hbody
  · unfold recordFiles
    rw [hsame]

theorem clearFilesBody_snd (s : ScanState) :
    (clearFilesBody s).2.tables.membership = none ∧ Blank (clearFilesBody s).2.ledger := by
  have hblank := blank_clearFilesLedger s.ledger
  unfold clearFilesBody
  simp only
  split
  · rename_i h; rw [h] at hblank; exact ⟨rfl, hblank⟩
  · rename_i h; rw [h] at hblank; exact ⟨rfl, hblank⟩

/-- `clear_files` takes the authority and every ledger generation away, or changes nothing. -/
theorem clearFiles_cases (s : ScanState) :
    ((clearFiles s).2.tables.membership = none ∧ Blank (clearFiles s).2.ledger) ∨
      (clearFiles s).2 = s := by
  rcases Tx.atomically_cases clearFilesBody s with ⟨a, hbody, -⟩ | ⟨-, hsame⟩
  · have hsnd := clearFilesBody_snd s
    rw [hbody] at hsnd
    exact .inl hsnd
  · exact .inr hsame

section Steps

variable {scanId : Int} {hasScan : Bool} {r : ScanRun}

theorem GenerationsKept.step (h : GenerationsKept r) (op : ScanOp) : GenerationsKept (r.step scanId hasScan op) := by
  cases op with
  | publish mode =>
    unfold ScanRun.step
    simp only
    split
    · rename_i g t hpublish
      obtain ⟨hnext, hmembership⟩ := publishResults_membership hpublish
      refine ⟨fun m gen hcells => ?_, fun _ => ?_, h.ledger, h.head, h.firstLedger⟩
      · simp only [hmembership, Option.some.injEq, Prod.mk.injEq] at hcells
        obtain ⟨rfl, rfl⟩ := hcells
        refine ⟨g, rfl, rfl, ?_, mode.value_cases⟩
        rcases nextPublication_ok hnext with ⟨-, rfl⟩ | ⟨-, p, -, hp, rfl⟩
        · exact Int.one_pos
        · omega
      · rcases nextPublication_ok hnext with ⟨-, rfl⟩ | ⟨m, p, hcells, -, -⟩
        · exact List.mem_cons_self
        · obtain ⟨head, hhead, -⟩ := h.current m _ hcells
          have hne : r.published ≠ [] := by
            intro hnil
            rw [hnil] at hhead; cases hhead
          exact List.mem_cons_of_mem _ (h.firstPublication hne)
    · rename_i e t hpublish
      obtain rfl := Tx.atomically_error hpublish
      exact ⟨h.current, h.firstPublication, h.ledger, h.head, h.firstLedger⟩
  | clearFiles =>
    unfold ScanRun.step
    rcases clearFiles_cases r.state with ⟨hnone, hblank⟩ | hsame
    · refine ⟨fun m gen hcells => ?_, h.firstPublication, ?_, fun hpos => ?_, h.firstLedger⟩
      · simp only at hcells
        rw [hnone] at hcells; cases hcells
      · exact le_of_eq hblank.generation.symm
      · simp only at hpos
        rw [hblank.generation] at hpos
        exact absurd hpos (lt_irrefl 0)
    · simp only [hsame]
      exact ⟨h.current, h.firstPublication, h.ledger, h.head, h.firstLedger⟩
  | recordFiles files =>
    unfold ScanRun.step
    refine ⟨fun m gen hcells => ?_, h.firstPublication, h.ledger, h.head, h.firstLedger⟩
    simp only [recordFiles_membership] at hcells
    exact h.current m gen hcells
  | commitOmissions perRoot =>
    unfold ScanRun.step
    simp only
    split
    · rename_i l hcommit
      have hgeneration := generation_of_commit h.ledger (Tx.atomically_ok.1 hcommit)
      have hledger := h.ledger
      refine ⟨h.current, h.firstPublication, ?_, fun _ => rfl, fun _ => ?_⟩
      · simp only; omega
      · rcases Int.lt_or_eq_of_le hledger with hpos | hzero
        · have hhead := h.head hpos
          have hne : r.committed ≠ [] := by
            intro hnil
            rw [hnil] at hhead; cases hhead
          exact List.mem_cons_of_mem _ (h.firstLedger hne)
        · rw [hgeneration, ← hzero]; exact List.mem_cons_self
    · rename_i e l hcommit
      obtain rfl := Tx.atomically_error hcommit
      exact ⟨h.current, h.firstPublication, h.ledger, h.head, h.firstLedger⟩

/-- What fresh steps keep besides: both lists of generations descend. -/
structure Descending (r : ScanRun) : Prop where
  publications : r.published.Pairwise fun a b => b < a
  ledgers : r.committed.Pairwise fun a b => b < a

theorem pairwise_cons_of_head {l : List Int} {g p : Int} (h : l.Pairwise fun a b => b < a)
    (hhead : l.head? = some p) (hg : p < g) : (g :: l).Pairwise fun a b => b < a := by
  refine List.pairwise_cons.2 ⟨fun x hx => ?_, h⟩
  cases l with
  | nil => cases hhead
  | cons y ys =>
    cases hhead
    rcases List.mem_cons.1 hx with rfl | hx
    · exact hg
    · exact lt_trans ((List.pairwise_cons.1 h).1 x hx) hg

/-- **A fresh step gives out a generation above every earlier one.** -/
theorem Descending.step (hd : Descending r) (h : GenerationsKept r) {op : ScanOp} (hfresh : FreshStep r op) :
    Descending (r.step scanId hasScan op) := by
  cases op with
  | publish mode =>
    unfold ScanRun.step
    simp only
    split
    · rename_i g t hpublish
      refine ⟨?_, hd.ledgers⟩
      rcases nextPublication_ok (publishResults_membership hpublish).1 with ⟨hnone, rfl⟩ | ⟨m, p, hcells, -, rfl⟩
      · simp [hfresh hnone]
      · obtain ⟨head, hhead, hp, -⟩ := h.current m _ hcells
        cases hp
        exact pairwise_cons_of_head hd.publications hhead (by omega)
    · exact ⟨hd.publications, hd.ledgers⟩
  | clearFiles => exact ⟨hd.publications, hd.ledgers⟩
  | recordFiles files => exact ⟨hd.publications, hd.ledgers⟩
  | commitOmissions perRoot =>
    unfold ScanRun.step
    simp only
    split
    · rename_i l hcommit
      have hgeneration := generation_of_commit h.ledger (Tx.atomically_ok.1 hcommit)
      refine ⟨hd.publications, ?_⟩
      rcases Int.lt_or_eq_of_le h.ledger with hpos | hzero
      · exact pairwise_cons_of_head hd.ledgers (h.head hpos) (by omega)
      · simp [hfresh hzero.symm]
    · exact ⟨hd.publications, hd.ledgers⟩

theorem counted_fold (ops : List ScanOp) :
    ∀ {r : ScanRun}, GenerationsKept r → GenerationsKept (ops.foldl (ScanRun.step scanId hasScan) r) := by
  induction ops with
  | nil => exact fun h => h
  | cons op ops ih => exact fun h => ih (h.step op)

theorem descending_fold (ops : List ScanOp) :
    ∀ {r : ScanRun}, Descending r → GenerationsKept r → FreshRun scanId hasScan r ops →
      Descending (ops.foldl (ScanRun.step scanId hasScan) r) := by
  induction ops with
  | nil => exact fun h _ _ => h
  | cons op ops ih => exact fun hd h hfresh => ih (hd.step h hfresh.1) (h.step op) hfresh.2

theorem counted_newScan (config : List Path) : GenerationsKept (newScan config) := by
  have hgeneration : (newScan config).state.ledger.generation = 0 := (blank_beginScan config).generation
  exact ⟨fun m g hcells => (by cases hcells), fun h => absurd rfl h, le_of_eq hgeneration.symm,
    fun hpos => absurd hgeneration.symm (ne_of_lt hpos), fun h => absurd rfl h⟩

end Steps

/-! ## Stale identities -/

theorem decodeAuthority_of {mode : Value} {g : Int} (hg : 0 < g)
    (hmode : mode = .integer 1 ∨ mode = .integer 2) :
    ∃ m, decodeAuthority mode (.integer g) = .ok (m, g) ∧ m ≠ .unknown := by
  rcases hmode with rfl | rfl
  · exact ⟨.derived, by simp [decodeAuthority, hg], by simp⟩
  · exact ⟨.explicit, by simp [decodeAuthority, hg], by simp⟩

/-- An identity that the gate finds stale is stale for every reader behind it. -/
theorem Snapshot.staleAt_of {s : Snapshot} {id : GroupId} {current : Int}
    (h : s.requireCurrent id = .error (.stale id.generation current)) : s.StaleAt id current := by
  have hauthority : s.requireAuthority = .ok () := by
    unfold Snapshot.requireCurrent at h
    cases hrequire : s.requireAuthority with
    | ok _ => rfl
    | error e =>
      rw [hrequire] at h
      unfold Snapshot.requireAuthority at hrequire
      split at hrequire
      · cases hrequire; cases h
      · cases hrequire
  have hgroup : s.witnessGroup id = .error (.stale id.generation current) := by
    unfold Snapshot.witnessGroup
    rw [h]
  have hgroups : ∀ ids, id ∈ ids → ∃ e, s.witnessGroups ids = .error e := by
    intro ids hid
    induction ids with
    | nil => cases hid
    | cons other ids ih =>
      unfold Snapshot.witnessGroups
      rcases List.mem_cons.1 hid with rfl | hid
      · rw [hgroup]
        exact ⟨_, rfl⟩
      · obtain ⟨e, he⟩ := ih hid
        rw [he]
        cases s.witnessGroup other with
        | error e => exact ⟨e, rfl⟩
        | ok g => exact ⟨e, rfl⟩
  refine ⟨h, fun marks => ?_, ?_, ?_, fun ids hid => ?_⟩
  · unfold Snapshot.group
    rw [h]
  · unfold Snapshot.groupMemberCount
    rw [h]
  · unfold Snapshot.witnessOf Snapshot.witnessGroups
    rw [hauthority, hgroup]
  · obtain ⟨e, he⟩ := hgroups ids hid
    unfold Snapshot.witnessOf
    rw [hauthority, he]
    exact ⟨e, rfl⟩

section Stale

variable {db : Database} {scanId current : Int} {mode : Value}
  (hcells : (db.tables scanId).membership = some (mode, .integer current)) (hpos : 0 < current)
  (hmode : mode = .integer 1 ∨ mode = .integer 2)

include hcells hpos hmode

/-- A reader of the current publication refuses an identity of another. -/
theorem requireCurrent_stale {s : Snapshot} (h : membershipSnapshot db scanId = .ok s)
    {rank g : Int} (hrank : 0 ≤ rank) (hg : g ≠ current) :
    s.requireCurrent ⟨scanId, rank, g⟩ = .error (.stale g current) := by
  obtain ⟨m, hdecode, hknown⟩ := decodeAuthority_of hpos hmode
  unfold membershipSnapshot at h
  split at h
  swap
  · cases h
  simp only [hcells, hdecode] at h
  split at h
  · cases h
  cases h
  unfold Snapshot.requireCurrent Snapshot.requireAuthority
  simp [hknown, Int.not_lt.2 hrank, hg]

/-- A lease over the current publication refuses the witness of another. -/
theorem lease_stale {w : PlanWitness} (hscan : db.hasScan scanId = true) (hw : w.scanId = scanId)
    (hpreflight : preflight w = none) (hg : w.generation ≠ current) :
    acquireMembershipLease none db w = .error (.stale w.generation current) := by
  obtain ⟨m, hdecode, -⟩ := decodeAuthority_of hpos hmode
  unfold acquireMembershipLease validateLeaseWitness
  simp [hpreflight, hw, hscan, hcells, hdecode, Ne.symm hg]

end Stale

theorem identity_of_descending {scanId : Int} {r : ScanRun} (h : GenerationsKept r) (hd : Descending r) :
    Identity scanId r := by
  refine ⟨hd.publications.imp fun hlt => ne_of_gt hlt, hd.ledgers.imp fun hlt => ne_of_gt hlt, ?_⟩
  intro g hg hmembership
  obtain ⟨⟨mode, generation⟩, hcells⟩ := Option.ne_none_iff_exists'.1 hmembership
  obtain ⟨current, hhead, rfl, hpos, hmode⟩ := h.current mode generation hcells
  have hne : g ≠ current := by
    cases hpublished : r.published with
    | nil => rw [hpublished] at hhead; cases hhead
    | cons x xs =>
      rw [hpublished] at hhead hg
      cases hhead
      have hlt := (List.pairwise_cons.1 (hpublished ▸ hd.publications)).1 g hg
      exact ne_of_lt hlt
  refine ⟨current, hhead, fun db hscan htables => ?_⟩
  have hcells' : (db.tables scanId).membership = some (mode, .integer current) := htables ▸ hcells
  refine ⟨fun s hs rank hrank =>
    Snapshot.staleAt_of (requireCurrent_stale hcells' hpos hmode hs hrank hne), ?_⟩
  rintro w hw rfl hpreflight
  exact lease_stale hcells' hpos hmode hscan hw hpreflight hne

/-- A publication or a commit that is not fresh gives out the first generation once more. -/
theorem reuse_of_not_fresh {scanId : Int} {hasScan : Bool} {r : ScanRun} (h : GenerationsKept r)
    {op : ScanOp} (hfresh : ¬FreshStep r op)
    (hdone : (r.step scanId hasScan op).published ≠ r.published ∨
      (r.step scanId hasScan op).committed ≠ r.committed) :
    ¬Identity scanId (r.step scanId hasScan op) := by
  intro hid
  cases op with
  | publish mode =>
    unfold FreshStep at hfresh
    rw [Classical.not_imp] at hfresh
    obtain ⟨hnone, hne⟩ := hfresh
    unfold ScanRun.step at hdone hid
    simp only at hdone hid
    split at hid
    · rename_i g t hpublish
      rcases nextPublication_ok (publishResults_membership hpublish).1 with ⟨-, rfl⟩ | ⟨m, p, hcells, -, -⟩
      · exact (List.nodup_cons.1 hid.publications).1 (h.firstPublication hne)
      · rw [hnone] at hcells; cases hcells
    · rename_i e t hpublish
      simp [hpublish] at hdone
  | clearFiles => exact hfresh trivial
  | recordFiles files => exact hfresh trivial
  | commitOmissions perRoot =>
    unfold FreshStep at hfresh
    rw [Classical.not_imp] at hfresh
    obtain ⟨hzero, hne⟩ := hfresh
    unfold ScanRun.step at hdone hid
    simp only at hdone hid
    split at hid
    · rename_i l hcommit
      have hgeneration := generation_of_commit h.ledger (Tx.atomically_ok.1 hcommit)
      have hledgers := (List.nodup_cons.1 hid.ledgers).1
      rw [hgeneration, hzero] at hledgers
      exact hledgers (h.firstLedger hne)
    · rename_i e l hcommit
      simp [hcommit] at hdone

/-- **When an identity is never given out again.** In a run whose publications and commits are fresh
no generation is given out twice and everything of an earlier publication is stale; and the first
one that is not fresh ends that. -/
theorem publication_identity (scanId : Int) (hasScan : Bool) (config : List Path)
    (ops : List ScanOp) :
    (FreshRun scanId hasScan (newScan config) ops →
      Identity scanId (runScan scanId hasScan config ops)) ∧
    ∀ op : ScanOp, ¬FreshStep (runScan scanId hasScan config ops) op →
      ((runScan scanId hasScan config (ops ++ [op])).published ≠
          (runScan scanId hasScan config ops).published ∨
        (runScan scanId hasScan config (ops ++ [op])).committed ≠
          (runScan scanId hasScan config ops).committed) →
      ¬Identity scanId (runScan scanId hasScan config (ops ++ [op])) := by
  have hcounted : GenerationsKept (runScan scanId hasScan config ops) :=
    counted_fold ops (counted_newScan config)
  refine ⟨fun hfresh => identity_of_descending hcounted ?_, fun op hnot => ?_⟩
  · exact descending_fold ops ⟨.nil, .nil⟩ (counted_newScan config) hfresh
  · have happend : runScan scanId hasScan config (ops ++ [op]) =
        (runScan scanId hasScan config ops).step scanId hasScan op := by
      unfold runScan
      rw [List.foldl_append]; rfl
    rw [happend]
    exact reuse_of_not_fresh hcounted hnot

/-- The root `/r` of a scan. -/
def sampleRoot : List Path := [[.rootDir, .normal ⟨[114], by decide⟩]]

theorem publication_identity_sample :
    Identity 1 (runScan 1 true sampleRoot [.publish .derived, .publish .derived]) ∧
      ¬Identity 1 (runScan 1 true sampleRoot [.publish .derived, .clearFiles, .publish .derived]) :=
  ⟨(publication_identity 1 true sampleRoot [.publish .derived, .publish .derived]).1
      ⟨fun _ => rfl, fun h => (by cases h), trivial⟩,
    (publication_identity 1 true sampleRoot [.publish .derived, .clearFiles]).2 (.publish .derived)
      (fun h => absurd (h rfl) (by decide)) (.inl (by decide))⟩

/-- Two publications with a fresh walk between them carry one generation. -/
theorem not_publication_identity :
    ¬∀ (config : List Path) (ops : List ScanOp), Identity 1 (runScan 1 true config ops) := by
  intro h
  have hid := (h sampleRoot [.publish .derived, .clearFiles, .publish .derived]).publications
  exact absurd hid (by decide)

end DedupCommando
