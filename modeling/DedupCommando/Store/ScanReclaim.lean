import DedupCommando.Model.ReclaimFold
import DedupCommando.Store.BuildersAgree

/-!
# The reclaim total of a published scan, read back

The ceiling of a scan is stored beside its state; what its exact groups promise is summed again from
the group rows by every reader.

* `scanReclaim` — the reader.
* `publishResults_total` — a publication folds the rows it leaves and stores what the fold answers.
* `reads_back_iff` — the reader finds that total, unless the sum over the exact rows overflows.
* `reclaim_estimates_iff` — **the estimates agree from the fold to the reader** exactly under these
  conditions.
-/

set_option autoImplicit false

namespace DedupCommando

open Sql (Value)
open ReclaimEstimate

/-! ## The reader -/

/-- The bytes of the exact rows. -/
def exactReclaims (rows : List GroupRow) : List Value :=
  (rows.filter fun g => Value.same g.reclaimState (.integer ReclaimState.exact.asI64)).map
    GroupRow.reclaim

/-- `scan_reclaim_tx` -/
def scanReclaim (t : ScanTables) : Except AppError ReclaimEstimate :=
  match Sql.sumInteger (exactReclaims t.fileGroup) with
  | .error e => .error ⟨e⟩
  | .ok guaranteed =>
    let ceiling := (t.stats.map ScanStats.reclaimableBytes).getD 0
    let state := (t.stats.map ScanStats.reclaimState).getD 0
    fromPersistedScan guaranteed ceiling state

/-! ## Stored figures -/

@[simp] theorem fromI64_asI64 (state : ReclaimState) : ReclaimState.fromI64 state.asI64 = .ok state := by
  cases state <;> rfl

/-- A figure in the persisted domain comes back unchanged. -/
theorem fromPersisted_persisted {e : ReclaimEstimate} (h : e.OfGroup)
    (hle : e.persistedBytes ≤ i64Max) :
    fromPersisted (castI64 e.persistedBytes) e.state.asI64 = .ok e := by
  unfold fromPersisted
  rw [castI64_of_le hle, fromI64_asI64]
  rcases h with rfl | ⟨bytes, rfl | rfl⟩
  · rfl
  · rfl
  · rfl

/-- **Every figure that `for_objects` computes comes back from the row it is stored in.** -/
theorem fromPersisted_forObjects {size : Nat} {objects : List ObjectLinks} {named : String}
    {e : ReclaimEstimate} (h : forObjects size objects named = .ok e) :
    fromPersisted (castI64 e.persistedBytes) e.state.asI64 = .ok e := by
  rcases ofGroup_forObjects h with rfl | ⟨bytes, hle, rfl | rfl⟩
  · exact fromPersisted_persisted (.inl rfl) (Nat.zero_le _)
  · exact fromPersisted_persisted (.inr ⟨bytes, .inl rfl⟩) hle
  · exact fromPersisted_persisted (.inr ⟨bytes, .inr rfl⟩) hle

/-- A stored row that is read as a figure holds the bytes and the state of the figure. -/
theorem fromPersisted_ok {reclaim state : Int} {e : ReclaimEstimate}
    (h : fromPersisted reclaim state = .ok e) :
    state = e.state.asI64 ∧ (e.Trusted → reclaim = e.persistedBytes) := by
  unfold fromPersisted at h
  have hstate : ∀ {s}, ReclaimState.fromI64 state = .ok s → state = s.asI64 := by
    intro s hs
    unfold ReclaimState.fromI64 at hs
    split at hs
    · cases hs; assumption
    split at hs
    · cases hs; assumption
    split at hs
    · cases hs; assumption
    · cases hs
  split at h
  · cases h
  · rename_i hs
    cases h
    exact ⟨hstate hs, fun ht => absurd rfl ht⟩
  · rename_i s hne hs
    split at h
    · cases h
    · rename_i hneg
      cases h
      refine ⟨hstate hs, fun ht => ?_⟩
      rw [persistedBytes_of_trusted ht]
      dsimp only
      omega

/-- What the summary rows are read as. -/
theorem persistedEstimates_ok : ∀ {rows : List GroupRow} {groups : List ReclaimEstimate},
    persistedEstimates rows = .ok groups →
    (∀ g ∈ groups, g.OfGroup) ∧
      exactReclaims rows =
        ((groups.filter fun g => decide (g.state = .exact)).map persistedBytes).map
          fun n : Nat => .integer n
  | [], groups, h => by
    cases h
    exact ⟨by simp, rfl⟩
  | row :: rows, groups, h => by
    unfold persistedEstimates at h
    split at h
    · cases h
    rename_i reclaim hreclaim
    split at h
    · cases h
    rename_i state hstate
    split at h
    · cases h
    rename_i e he
    split at h
    · cases h
    rename_i es hes
    cases h
    obtain ⟨hgroup, hsum⟩ := persistedEstimates_ok hes
    obtain ⟨hst, hbytes⟩ := fromPersisted_ok he
    refine ⟨List.forall_mem_cons.mpr ⟨ofGroup_fromPersisted he, hgroup⟩, ?_⟩
    have hexact : Value.same row.reclaimState (.integer ReclaimState.exact.asI64) =
        decide (e.state = .exact) := by
      rw [getInteger_ok.mp hstate, hst]
      cases e.state <;> decide
    unfold exactReclaims at hsum ⊢
    rw [List.filter_cons, List.filter_cons, hexact]
    by_cases hx : e.state = .exact
    · have ht : e.Trusted := by
        unfold Trusted
        rw [hx]
        simp
      rw [if_pos (decide_eq_true hx), if_pos (decide_eq_true hx), List.map_cons, hsum,
        getInteger_ok.mp hreclaim, hbytes ht]
      rfl
    · rw [if_neg (by simpa using hx), if_neg (by simpa using hx), hsum]

/-- What the exact ones of some groups promise. -/
def exactBytes (groups : List ReclaimEstimate) : Nat :=
  ((groups.filter fun g => decide (g.state = .exact)).map persistedBytes).sum

theorem exactBytes_cons (g : ReclaimEstimate) (groups : List ReclaimEstimate) :
    exactBytes (g :: groups) = (if g.state = .exact then g.persistedBytes else 0) + exactBytes groups := by
  unfold exactBytes
  rw [List.filter_cons]
  by_cases h : g.state = .exact
  · simp [h]
  · simp [h]

/-- What the groups guarantee is what the exact ones hold. -/
theorem sum_guaranteed : ∀ {groups : List ReclaimEstimate}, (∀ g ∈ groups, g.OfGroup) →
    (groups.map guaranteedBytes).sum = exactBytes groups
  | [], _ => rfl
  | g :: groups, h => by
    rw [List.map_cons, List.sum_cons, exactBytes_cons,
      sum_guaranteed fun e he => h e (List.mem_cons_of_mem _ he)]
    rcases h g List.mem_cons_self with rfl | ⟨bytes, rfl | rfl⟩
    · rfl
    · rfl
    · rfl

/-- Without an upper bound among them the exact ones hold everything. -/
theorem exactBytes_of_exact : ∀ {groups : List ReclaimEstimate}, (∀ g ∈ groups, g.Trusted) →
    worst groups = .exact → exactBytes groups = bounds groups
  | [], _, _ => rfl
  | g :: groups, ht, hw => by
    unfold worst at hw
    rw [List.any_cons] at hw
    have hg : g.state = .exact := by
      have htg := ht g List.mem_cons_self
      unfold Trusted at htg
      cases hs : g.state with
      | unknown => exact absurd hs htg
      | exact => rfl
      | upperBound => simp [hs] at hw
    have hrest : worst groups = .exact := by
      unfold worst
      simpa [hg] using hw
    rw [exactBytes_cons, bounds_cons, if_pos hg,
      exactBytes_of_exact (fun e he => ht e (List.mem_cons_of_mem _ he)) hrest]

/-! ## A publication -/

theorem insertResults_stats {generation : Int} {mode : PublishMode} {t t' : ScanTables}
    (h : insertResults generation mode t = (.ok (), t')) : t'.stats = t.stats := by
  cases mode with
  | derived =>
    obtain ⟨-, rfl⟩ := insertDerived_ok h
    rfl
  | explicit groups =>
    obtain ⟨rows, -, hrows⟩ := insertExplicit_ok h
    rw [(insertGroups_ok hrows).1]

/-- A publication that succeeded. -/
structure ScanPublication where
  scanId : Int
  hasScan : Bool
  mode : PublishMode
  before : ScanTables
  generation : Int
  after : ScanTables
  published : publishResults scanId hasScan mode before = (.ok generation, after)

/-- It folds the figures of the rows it leaves, and stores the outcome where the scan had totals. -/
theorem ScanPublication.total (p : ScanPublication) : ∃ groups total,
    persistedEstimates p.after.fileGroup = .ok groups ∧ forFreshScan groups = .ok total ∧
      p.after.stats = some (match p.before.stats with
        | some _ => ⟨castI64 total.persistedBytes, total.state.asI64, true⟩
        | none => ⟨0, 0, true⟩) := by
  obtain ⟨scanId, hasScan, mode, t, generation, t', h⟩ := p
  have h := Tx.atomically_ok.1 h
  unfold publishBody at h
  split at h
  · cases h
  rename_i g hnext
  split at h
  · cases h
  rename_i t₁ hinsert
  have hstats : t₁.stats = t.withoutResults.stats := insertResults_stats hinsert
  split at h
  · cases h
  rename_i t₂ hrecord
  unfold recordScanReclaim at hrecord
  split at hrecord
  · cases hrecord
  rename_i groups hgroups
  split at hrecord
  · cases hrecord
  rename_i total htotal
  cases hrecord
  simp only at h
  split at h
  · cases h
    refine ⟨groups, total, hgroups, htotal, ?_⟩
    simp only [markPrepared, hstats, ScanTables.withoutResults]
    cases t.stats with
    | none => rfl
    | some s => rfl
  · cases h

/-- The reader answers what the publication computed. -/
def ScanPublication.ReadsBack (p : ScanPublication) : Prop :=
  ∃ groups total, persistedEstimates p.after.fileGroup = .ok groups ∧
    forFreshScan groups = .ok total ∧ scanReclaim p.after = .ok total

/-- The exact rows sum up in the integer column, and an established total has a row to be kept in. -/
def ScanPublication.Summable (p : ScanPublication) : Prop :=
  ∃ groups, persistedEstimates p.after.fileGroup = .ok groups ∧ exactBytes groups ≤ i64Max ∧
    ((∀ g ∈ groups, g.Trusted) → p.before.stats.isSome)

theorem forFreshScanFrom_blind : ∀ {groups : List ReclaimEstimate} {state : ReclaimState}
    {guaranteed ceiling : Nat} {total : ReclaimEstimate}, (∃ g ∈ groups, ¬g.Trusted) →
    forFreshScanFrom state guaranteed ceiling groups = .ok total → total = unknown
  | [], _, _, _, _, hu, _ => by simp at hu
  | g :: gs, state, guaranteed, ceiling, total, hu, h => by
    by_cases hg : g.Trusted
    · have hrest : ∃ e ∈ gs, ¬e.Trusted := by
        obtain ⟨e, he, hne⟩ := hu
        rcases List.mem_cons.mp he with rfl | he
        · exact absurd hg hne
        · exact ⟨e, he, hne⟩
      rw [forFreshScanFrom_cons hg] at h
      split at h
      · exact forFreshScanFrom_blind hrest h
      · cases h
    · unfold Trusted at hg
      unfold forFreshScanFrom at h
      rw [not_not.mp hg] at h
      cases h
      rfl

/-- A total over established rows, read from the columns it was stored in. -/
theorem fromPersistedScan_trusted {groups : List ReclaimEstimate} (hgroup : ∀ g ∈ groups, g.OfGroup)
    (ht : ∀ g ∈ groups, g.Trusted) (hle : bounds groups ≤ i64Max) :
    fromPersistedScan (exactBytes groups) (castI64 (bounds groups)) (worst groups).asI64 =
      .ok ⟨worst groups, (groups.map guaranteedBytes).sum, bounds groups⟩ := by
  rw [castI64_of_le hle, sum_guaranteed hgroup]
  unfold fromPersistedScan fromPersisted
  rw [fromI64_asI64]
  cases hw : worst groups with
  | unknown =>
    unfold worst at hw
    split at hw
    · cases hw
    · cases hw
  | exact =>
    rw [exactBytes_of_exact ht hw]
    rfl
  | upperBound => rfl

/-- **The reader finds the total of the publication**, if and only if the exact rows sum up. -/
theorem ScanPublication.reads_back_iff (p : ScanPublication) : p.ReadsBack ↔ p.Summable := by
  obtain ⟨groups, total, hgroups, htotal, hstats⟩ := p.total
  obtain ⟨hgroup, hcells⟩ := persistedEstimates_ok hgroups
  have hsum : Sql.sumInteger (exactReclaims p.after.fileGroup) =
      if exactBytes groups < 2 ^ 63 then .ok (exactBytes groups : Int) else .error "integer overflow" := by
    rw [hcells]
    exact Sql.sumInteger_nonneg _
  have hread : p.ReadsBack ↔ scanReclaim p.after = .ok total := by
    constructor
    · rintro ⟨groups', total', hgroups', htotal', hread⟩
      cases hgroups.symm.trans hgroups'
      cases htotal.symm.trans htotal'
      exact hread
    · exact fun hread => ⟨groups, total, hgroups, htotal, hread⟩
  have hsummable : p.Summable ↔ exactBytes groups ≤ i64Max ∧
      ((∀ g ∈ groups, g.Trusted) → p.before.stats.isSome) := by
    constructor
    · rintro ⟨groups', hgroups', h⟩
      cases hgroups.symm.trans hgroups'
      exact h
    · exact fun h => ⟨groups, hgroups, h⟩
  rw [hread, hsummable]
  unfold scanReclaim
  rw [hsum, hstats]
  by_cases hover : exactBytes groups < 2 ^ 63
  · rw [if_pos hover, and_iff_right (show exactBytes groups ≤ i64Max by unfold i64Max; omega)]
    by_cases ht : ∀ g ∈ groups, g.Trusted
    · rw [forFreshScan_trusted hgroup ht] at htotal
      split at htotal
      · rename_i hle
        cases htotal
        cases hb : p.before.stats with
        | none =>
          constructor
          · intro h
            exact absurd (congrArg (Except.map ReclaimEstimate.state) h) (by
              change Except.ok ReclaimState.unknown ≠ Except.ok (worst groups)
              unfold worst
              split <;> simp)
          · intro h
            cases h ht
        | some s =>
          refine iff_of_true ?_ fun _ => rfl
          have hstored : persistedBytes ⟨worst groups, (groups.map guaranteedBytes).sum, bounds groups⟩ =
              bounds groups := by
            apply persistedBytes_of_trusted
            unfold Trusted worst
            dsimp only
            split <;> simp
          simp only [Option.map_some, Option.getD_some, hstored]
          exact fromPersistedScan_trusted hgroup ht hle
      · cases htotal
    · have hu : ∃ g ∈ groups, ¬g.Trusted := by
        simpa using ht
      cases forFreshScanFrom_blind hu htotal
      refine iff_of_true ?_ fun h => absurd h ht
      cases p.before.stats with
      | none => rfl
      | some s => rfl
  · rw [if_neg hover]
    apply iff_of_false
    · simp
    · unfold i64Max
      omega

/-! ## From the fold to the reader -/

/-- The fold answers the same for every permutation of the groups. -/
def SameInEveryOrder (groups : List GroupEstimate) : Prop :=
  ∀ groups', groups.Perm groups' →
    forFreshScan (groups'.map GroupEstimate.figure) = forFreshScan (groups.map GroupEstimate.figure)

/-- Established groups whose sums fit are answered by these sums. -/
def FoldsToSums (groups : List GroupEstimate) : Prop :=
  (∀ g ∈ groups, g.figure.Trusted) →
    exactBytes (groups.map GroupEstimate.figure) ≤ i64Max →
    ((groups.map GroupEstimate.figure).map ceilingBytes).sum ≤ i64Max →
    ∃ total, forFreshScan (groups.map GroupEstimate.figure) = .ok total ∧
      total.guaranteedBytes = exactBytes (groups.map GroupEstimate.figure) ∧
      total.ceilingBytes = ((groups.map GroupEstimate.figure).map ceilingBytes).sum

/-- A figure computed from objects is what its row is read as. -/
def FiguresRestored : Prop :=
  ∀ (size : Nat) (objects : List ObjectLinks) (named : String) (e : ReclaimEstimate),
    forObjects size objects named = .ok e →
      fromPersisted (castI64 e.persistedBytes) e.state.asI64 = .ok e

theorem GroupEstimate.of_mem {groups : List GroupEstimate} :
    ∀ e ∈ groups.map GroupEstimate.figure, e.OfGroup := by
  intro e he
  obtain ⟨g, -, rfl⟩ := List.mem_map.mp he
  exact g.ofGroup

theorem foldsToSums (groups : List GroupEstimate) : FoldsToSums groups := by
  intro ht hexact hceiling
  have ht' : ∀ e ∈ groups.map GroupEstimate.figure, e.Trusted := by
    intro e he
    obtain ⟨g, hg, rfl⟩ := List.mem_map.mp he
    exact ht g hg
  rw [← sum_guaranteed GroupEstimate.of_mem] at hexact
  obtain ⟨total, htotal⟩ := forFreshScan_total ht' hexact hceiling
  obtain ⟨-, hguaranteed, hbound, -⟩ := forFreshScan_ok ht' htotal
  exact ⟨total, htotal, by rw [hguaranteed, sum_guaranteed GroupEstimate.of_mem], hbound⟩

theorem sameInEveryOrder_iff (groups : List GroupEstimate) :
    SameInEveryOrder groups ↔ Orderly (groups.map GroupEstimate.figure) := by
  rw [← same_in_every_order GroupEstimate.of_mem]
  constructor
  · intro h groups' hperm
    -- a permutation of figures of groups is the figures of a permutation
    have hgroup : ∀ e ∈ groups', e.OfGroup := fun e he =>
      GroupEstimate.of_mem e (hperm.mem_iff.mpr he)
    have hfigures : (groups'.pmap GroupEstimate.mk hgroup).map GroupEstimate.figure = groups' := by
      rw [List.map_pmap]
      simp
    have hinj : Function.Injective GroupEstimate.figure := fun a b hab => by
      cases a
      cases b
      cases hab
      rfl
    rw [← hfigures] at hperm ⊢
    exact h _ ((List.map_perm_map_iff hinj).mp hperm)
  · exact fun h groups' hperm => h _ (hperm.map _)

/-- **From the fold to the reader**: a list of groups folds the same in every order exactly when no
    group is unknown or the established ones fit the word, to the sums; a computed figure survives
    its row; and a publication's total is read back exactly when its exact rows sum up. -/
theorem reclaim_estimates_iff (groups : List GroupEstimate) (p : ScanPublication) :
    (SameInEveryOrder groups ∧ FoldsToSums groups ↔ Orderly (groups.map GroupEstimate.figure)) ∧
    FiguresRestored ∧ (p.ReadsBack ↔ p.Summable) := by
  refine ⟨?_, fun size objects named e h => fromPersisted_forObjects h, p.reads_back_iff⟩
  rw [and_iff_left (foldsToSums groups)]
  exact sameInEveryOrder_iff groups

/-! ## Sums that do not fit -/

/-- A group of the greatest figure a row can hold. -/
def vast : GroupEstimate := ⟨exact i64Max, .inr ⟨_, .inl rfl⟩⟩

/-- A group nobody could measure. -/
def unmeasured : GroupEstimate := ⟨unknown, .inl rfl⟩

/-- Two allocations of `size` bytes for each digest, whose inodes have `links` names. -/
def pairOf (size : Int) (letter : Byte) (links : Int) : List FileRow :=
  (sizedFiles size).map fun f => { f with
    path := match f.path with
      | .text b => .text (b ++ [letter])
      | other => other
    inode := f.inode + 256 * letter.val
    nlink := .integer links
    hash := .blob (List.replicate 32 letter) }

/-- Two groups of the greatest exact figure and one without recorded link counts. -/
def vastTables : ScanTables where
  file := pairOf (2 ^ 63 - 1) 1 1 ++ pairOf (2 ^ 63 - 1) 2 1 ++ pairOf 5 3 0
  fileGroup := []
  member := []
  membership := none
  stats := some ⟨0, 0, false⟩

/-- Three vast groups in front of an unknown one refuse what the unknown one in front decides, and
    a published unknown total is not read back. -/
theorem not_reclaim_estimates :
    ¬SameInEveryOrder [vast, vast, vast, unmeasured] ∧
    ¬∀ p : ScanPublication, p.ReadsBack := by
  constructor
  · intro h
    have hperm : [vast, vast, vast, unmeasured].Perm [unmeasured, vast, vast, vast] :=
      List.perm_append_comm_assoc [vast, vast, vast] [unmeasured] []
    exact absurd (congrArg Except.isOk (h _ hperm)) (by decide)
  · intro h
    have hrun : (scanReclaim (publishResults 1 true .derived vastTables).2).isOk = false := by
      decide +kernel
    obtain ⟨groups, total, -, -, hread⟩ :=
      h ⟨1, true, .derived, vastTables, 1, (publishResults 1 true .derived vastTables).2, rfl⟩
    rw [hread] at hrun
    cases hrun

end DedupCommando
