import DedupCommando.Model.OmissionCells

/-!
# What the ledger's verdicts count

A verdict reads the cells through an exact row, a string interval and a root-wide sentinel; the
disposition asks the same maps for existence only, and the totals take every row once.

* `told` — what a verdict has to count: the cells at or under the path, and for a path strictly
  below its root the root's own walk errors.
* `again` — what the interval of the file system's root brings a second time.
* `Built.verdict_counted`, `Built.disposition_eq`, `Built.accounting_eq` — what the three readers
  answer.
* `snapshot_exact_iff` — they agree exactly when no row is read twice and no figure leaves the word.
-/

set_option autoImplicit false

namespace DedupCommando

/-! ## What a verdict counts -/

/-- What a verdict about `key` has to count: every cell at or under it, and below the root the
root's own walk errors as well. -/
def told (cells : List OmissionCell) (root key : PathKey) (r : OmissionReason) : Nat :=
  tally cells (fun c => c.directory.isAtOrUnder key && decide (c.reason = r)) +
    if key ≠ root ∧ r = .walkError then
      tally cells fun c => decide (c.reason = .walkError ∧ c.directory = root)
    else 0

/-- What the string interval of `key` brings a second time: the exact row of the file system's
root, whose interval begins with its own spelling. -/
def again (cells : List OmissionCell) (key : PathKey) (r : OmissionReason) : Nat :=
  if key.segments = [] then
    tally cells fun c => decide (c.directory = key) && decide (c.reason = r)
  else 0

section Folds

variable {root : PathKey}

theorem foldStored_eq {stored : PathKey × OmissionSummary} (h : stored.1 = root)
    (s : OmissionSummary) : CompletenessSnapshot.foldStored root s stored =
      s.addAll stored.2.perReason.entries := by
  unfold CompletenessSnapshot.foldStored
  rw [if_neg (by simpa using h)]

theorem foldRange_ok {s' : OmissionSummary} :
    ∀ {es : List (Bytes × PathKey × OmissionSummary)} {s : OmissionSummary},
      (∀ e ∈ es, e.2.1 = root) → CompletenessSnapshot.foldRange root s es = .ok s' →
      ∀ r, s'.count r = s.count r + (es.map fun e => e.2.2.count r).sum
  | [], s, _, h, r => by cases h; rfl
  | (k, stored) :: rest, s, ht, h, r => by
    unfold CompletenessSnapshot.foldRange at h
    rw [foldStored_eq (ht _ List.mem_cons_self)] at h
    split at h
    · rename_i s₁ hs
      rw [foldRange_ok (fun e he => ht e (List.mem_cons_of_mem _ he)) h r,
        OmissionSummary.addAll_ok hs r, OmissionSummary.eventsOf_perReason]
      simp only [List.map_cons, List.sum_cons, Nat.add_assoc]
    · cases h

theorem foldRange_error {msg : String} :
    ∀ {es : List (Bytes × PathKey × OmissionSummary)} {s : OmissionSummary},
      (∀ e ∈ es, e.2.1 = root) → CompletenessSnapshot.foldRange root s es = .error msg →
      ∃ r, 2 ^ 64 ≤ s.count r + (es.map fun e => e.2.2.count r).sum
  | [], s, _, h => by cases h
  | (k, stored) :: rest, s, ht, h => by
    unfold CompletenessSnapshot.foldRange at h
    rw [foldStored_eq (ht _ List.mem_cons_self)] at h
    split at h
    · rename_i s₁ hs
      obtain ⟨r, hr⟩ := foldRange_error (fun e he => ht e (List.mem_cons_of_mem _ he)) h
      refine ⟨r, ?_⟩
      rw [OmissionSummary.addAll_ok hs r, OmissionSummary.eventsOf_perReason] at hr
      simpa only [List.map_cons, List.sum_cons, Nat.add_assoc] using hr
    · rename_i hs
      obtain ⟨r, hr⟩ := OmissionSummary.addAll_error hs
      rw [OmissionSummary.eventsOf_perReason] at hr
      refine ⟨r, ?_⟩
      rw [List.map_cons, List.sum_cons, ← Nat.add_assoc]
      exact hr.trans (Nat.le_add_right _ _)

end Folds

namespace Built

variable {snap : CompletenessSnapshot} {roots : List Path} {cells : List OmissionCell}

/-- The exact row of a directory holds the cells stored for it. -/
theorem own_row (built : Built snap roots cells) (key : PathKey) (r : OmissionReason) :
    (snap.rows.get? key.asStr).elim 0 (fun stored => stored.2.count r) =
      tally cells fun c => decide (c.directory = key) && decide (c.reason = r) := by
  have h := built.rows.sum (fun s => decide (s = key.asStr)) r
  simp only [decide_eq_true_eq, PathKey.asStr_injective.eq_iff] at h
  rw [← h]
  exact (snap.rows.sum_single key.asStr fun stored => stored.2.count r).symm

/-- The interval of a directory holds the cells below it. -/
theorem range_rows (built : Built snap roots cells) (key : PathKey) (r : OmissionReason) :
    ((snap.rows.range key.subtreeBounds.1 key.subtreeBounds.2).map fun e => e.2.2.count r).sum =
      tally cells fun c =>
        (c.directory.isAtOrUnder key && decide (c.directory ≠ key ∨ key.segments = [])) &&
          decide (c.reason = r) := by
  rw [snap.rows.sum_range]
  have h := built.rows.sum
    (fun s => decide (key.subtreeBounds.1 ≤ s ∧ s < key.subtreeBounds.2)) r
  simp only [decide_eq_true_eq] at h
  rw [h]
  refine tally_congr fun c _ => ?_
  rw [decide_eq_decide.2 PathKey.mem_subtree_iff, Bool.decide_and]
  simp

/-- What the exact row and the interval count together. -/
theorem own_add_range (built : Built snap roots cells) (key : PathKey) (r : OmissionReason) :
    (snap.rows.get? key.asStr).elim 0 (fun stored => stored.2.count r) +
        ((snap.rows.range key.subtreeBounds.1 key.subtreeBounds.2).map
          fun e => e.2.2.count r).sum =
      tally cells (fun c => c.directory.isAtOrUnder key && decide (c.reason = r)) +
        again cells key r := by
  rw [built.own_row, built.range_rows]
  unfold again
  split
  · rename_i hkey
    rw [Nat.add_comm]
    congr 1
    exact tally_congr fun c _ => by simp [hkey]
  · rename_i hkey
    rw [Nat.add_zero, ← tally_or]
    · refine tally_congr fun c _ => ?_
      by_cases hd : c.directory = key
      · simp [hd, PathKey.isAtOrUnder_refl, hkey]
      · simp [hd]
    · rintro c - ⟨h₁, h₂⟩
      simp only [Bool.and_eq_true, decide_eq_true_eq] at h₁ h₂
      rcases h₂.1.2 with h | h
      · exact h h₁.1
      · exact hkey h

/-- Under agreeing registrations, every stored row under a root carries that root. -/
theorem row_root (built : Built snap roots cells) (hagrees : snap.agrees = true)
    {root key : PathKey} (hroot : root ∈ snap.configured) (hunder : key.isAtOrUnder root = true)
    {e : Bytes × PathKey × OmissionSummary}
    (he : e ∈ snap.rows.range key.subtreeBounds.1 key.subtreeBounds.2 ∨
      snap.rows.get? key.asStr = some e.2 ∧ e.1 = key.asStr) : e.2.1 = root := by
  have hmem : e ∈ snap.rows.entries := by
    rcases he with he | ⟨he, hk⟩
    · exact (List.mem_filter.1 he).1
    · exact OrdMap.mem_entries.2 (hk ▸ he)
  obtain ⟨c, hc, hdir, htag⟩ := built.rows.tag e hmem
  rw [← htag]
  refine built.cell_root hagrees hroot hc (PathKey.isAtOrUnder_trans ?_ hunder)
  rcases he with he | ⟨-, hk⟩
  · have hr := (OrdMap.mem_range.1 he).2
    rw [← hdir] at hr
    exact (PathKey.mem_subtree_iff.1 hr).1
  · rw [PathKey.asStr_injective (hdir.trans hk)]
    exact PathKey.isAtOrUnder_refl key

/-- The sentinel of a root counts the walk errors stored at the root itself. -/
theorem sentinel_eq (built : Built snap roots cells) (hagrees : snap.agrees = true)
    {root : PathKey} (hroot : root ∈ snap.configured) :
    (snap.sentinels.get? root).elim 0 EventCount.get =
      tally cells fun c => decide (c.reason = .walkError ∧ c.directory = root) := by
  rw [built.rows.sentinel]
  refine tally_congr fun c hc => ?_
  rw [Bool.eq_iff_iff]
  simp only [Bool.and_eq_true, decide_eq_true_eq]
  constructor
  · rintro ⟨⟨h₁, h₂⟩, h₃⟩
    exact ⟨h₁, h₂.trans h₃⟩
  · rintro ⟨h₁, h₂⟩
    have := built.cell_root hagrees hroot hc (h₂ ▸ PathKey.isAtOrUnder_refl _)
    exact ⟨⟨h₁, h₂.trans this.symm⟩, this⟩

end Built

/-! ## The two classifiers under a trusted root -/

/-- A path that a classifier answers from the ledger: its key and its root, trusted. -/
structure Trusts (snap : CompletenessSnapshot) (path : Path) (root key : PathKey) : Prop where
  keyed : PathKey.new path = some key
  owned : snap.owningRoot path = some root
  trusted : snap.trustedRoot root = true

namespace Trusts

variable {snap : CompletenessSnapshot} {path : Path} {root key : PathKey}

theorem agrees (t : Trusts snap path root key) : snap.agrees = true := by
  have h := t.trusted
  unfold CompletenessSnapshot.trustedRoot at h
  exact (Bool.and_eq_true_iff.1 h).1

theorem mem (t : Trusts snap path root key) : root ∈ snap.configured :=
  (owningRoot_eq_some t.keyed t.owned).1

theorem under (t : Trusts snap path root key) : key.isAtOrUnder root = true :=
  (owningRoot_eq_some t.keyed t.owned).2

end Trusts

/-- The answer that a verdict counting `count` gives, refusing where a figure leaves the word. -/
def Counted (count : OmissionReason → Nat) : Except String DirCompleteness → Prop
  | .ok .complete => ∀ r, count r = 0
  | .ok (.incomplete s) => (∃ r, 0 < count r) ∧ ∀ r, s.count r = count r
  | .ok .unknown => False
  | .error _ => ∃ r, 2 ^ 64 ≤ count r

theorem Counted.summary {count : OmissionReason → Nat} {s : OmissionSummary}
    (h : ∀ r, s.count r = count r) :
    Counted count (.ok (if s.isEmpty then .complete else .incomplete s)) := by
  by_cases hempty : s.isEmpty = true
  · rw [if_pos hempty]
    exact fun r => (h r).symm.trans (OmissionSummary.isEmpty_iff.1 hempty r)
  · rw [if_neg hempty]
    refine ⟨?_, h⟩
    rw [OmissionSummary.isEmpty_iff, not_forall] at hempty
    obtain ⟨r, hr⟩ := hempty
    exact ⟨r, h r ▸ Nat.pos_of_ne_zero hr⟩

namespace Built

variable {snap : CompletenessSnapshot} {roots : List Path} {cells : List OmissionCell}
variable {path : Path} {root key : PathKey}

/-- The exact row a verdict starts from. -/
theorem own_folded (built : Built snap roots cells) (t : Trusts snap path root key) :
    ∃ s₀, snap.foldOwn root key = .ok s₀ ∧
      ∀ r, s₀.count r = (snap.rows.get? key.asStr).elim 0 fun stored => stored.2.count r := by
  unfold CompletenessSnapshot.foldOwn
  cases hget : snap.rows.get? key.asStr with
  | none => exact ⟨.default, rfl, fun _ => rfl⟩
  | some stored =>
    have htag : stored.1 = root :=
      built.row_root t.agrees t.mem t.under (e := (key.asStr, stored)) (.inr ⟨hget, rfl⟩)
    simp only [foldStored_eq htag, Option.elim_some]
    cases hadd : OmissionSummary.default.addAll stored.2.perReason.entries with
    | error e =>
      obtain ⟨r, hr⟩ := OmissionSummary.addAll_error hadd
      rw [OmissionSummary.eventsOf_perReason, OmissionSummary.count_default, Nat.zero_add] at hr
      exact absurd (OmissionSummary.count_lt _ r) (not_lt.2 hr)
    | ok s₀ =>
      refine ⟨s₀, rfl, fun r => ?_⟩
      rw [OmissionSummary.addAll_ok hadd r, OmissionSummary.eventsOf_perReason]
      simp

/-- **What a verdict answers under a trusted root**: the events told, with what the interval
brings again. -/
theorem verdict_counted (built : Built snap roots cells) (t : Trusts snap path root key) :
    Counted (fun r => told cells root key r + again cells key r) (snap.verdict path) := by
  obtain ⟨s₀, hown, hs₀⟩ := built.own_folded t
  have htags : ∀ e ∈ snap.rows.range key.subtreeBounds.1 key.subtreeBounds.2, e.2.1 = root :=
    fun e he => built.row_root t.agrees t.mem t.under (.inl he)
  unfold CompletenessSnapshot.verdict
  simp only [t.keyed, t.owned, t.trusted, not_true_eq_false, if_false, hown]
  cases hfold : CompletenessSnapshot.foldRange root s₀
      (snap.rows.range key.subtreeBounds.1 key.subtreeBounds.2) with
  | error e =>
    obtain ⟨r, hr⟩ := foldRange_error htags hfold
    rw [hs₀ r, built.own_add_range] at hr
    exact ⟨r, hr.trans (Nat.add_le_add_right (Nat.le_add_right _ _) _)⟩
  | ok s₁ =>
    have hs₁ : ∀ r, s₁.count r =
        tally cells (fun c => c.directory.isAtOrUnder key && decide (c.reason = r)) +
          again cells key r := by
      intro r
      rw [foldRange_ok htags hfold r, hs₀ r, built.own_add_range]
    by_cases hkey : key = root
    · simp only [if_pos hkey]
      refine Counted.summary fun r => ?_
      rw [hs₁ r, told, if_neg (fun h => h.1 hkey), Nat.add_zero]
    · simp only [if_neg hkey]
      have hsent := built.sentinel_eq t.agrees t.mem
      cases hget : snap.sentinels.get? root with
      | none =>
        rw [hget] at hsent
        refine Counted.summary fun r => ?_
        rw [hs₁ r, told, ← hsent]
        simp
      | some count =>
        rw [hget, Option.elim_some] at hsent
        have htold : ∀ r, told cells root key r = tally cells (fun c =>
            c.directory.isAtOrUnder key && decide (c.reason = r)) +
              if r = .walkError then count.get else 0 := by
          intro r
          rw [told, hsent]
          simp [hkey]
        simp only
        cases hadd : s₁.add .walkError count with
        | error e =>
          refine ⟨.walkError, ?_⟩
          have h := OmissionSummary.add_error hadd
          rw [hs₁] at h
          have hw := htold .walkError
          rw [if_pos rfl] at hw
          simp only [hw]
          omega
        | ok s₂ =>
          refine Counted.summary fun r => ?_
          rw [OmissionSummary.add_ok hadd r, hs₁ r, htold r]
          omega

/-- Something lies at or under the key exactly when there is something to tell. -/
theorem omittedAtOrUnder_iff (built : Built snap roots cells) (t : Trusts snap path root key) :
    snap.omittedAtOrUnder root key = true ↔ ∃ r, 0 < told cells root key r := by
  have hsent := built.sentinel_eq t.agrees t.mem
  have hrows : (∃ r, 0 < tally cells fun c =>
      c.directory.isAtOrUnder key && decide (c.reason = r)) ↔
        ∃ c ∈ cells, c.directory.isAtOrUnder key = true := by
    simp only [tally_pos, Bool.and_eq_true, decide_eq_true_eq]
    exact ⟨fun ⟨_, c, hc, h, _⟩ => ⟨c, hc, h⟩, fun ⟨c, hc, h⟩ => ⟨_, c, hc, h, rfl⟩⟩
  unfold CompletenessSnapshot.omittedAtOrUnder
  simp only [Bool.or_eq_true, Option.any_eq_true, List.any_eq_true, decide_eq_true_eq]
  constructor
  · rintro ((h | ⟨stored, hget, -⟩) | ⟨e, he, -⟩)
    · obtain ⟨count, hcount⟩ := Option.isSome_iff_exists.1 h
      rw [hcount, Option.elim_some] at hsent
      have hpos : 0 < tally cells fun c =>
          decide (c.reason = .walkError ∧ c.directory = root) := hsent ▸ count.pos
      refine ⟨.walkError, ?_⟩
      unfold told
      by_cases hkey : key = root
      · obtain ⟨c, hc, hP⟩ := tally_pos.1 hpos
        refine Nat.add_pos_left (tally_pos.2 ⟨c, hc, ?_⟩) _
        simp only [decide_eq_true_eq] at hP
        simp [hP.1, hP.2, hkey, PathKey.isAtOrUnder_refl]
      · rw [if_pos ⟨hkey, rfl⟩]
        exact Nat.add_pos_right _ hpos
    · obtain ⟨c, hc, hdir, -⟩ := built.rows.tag _ (OrdMap.mem_entries.2 hget)
      obtain ⟨r, hr⟩ := hrows.2 ⟨c, hc, by
        rw [PathKey.asStr_injective hdir]; exact PathKey.isAtOrUnder_refl key⟩
      exact ⟨r, Nat.add_pos_left hr _⟩
    · obtain ⟨hget, hbounds⟩ := OrdMap.mem_range.1 he
      obtain ⟨c, hc, hdir, -⟩ := built.rows.tag e (OrdMap.mem_entries.2 hget)
      rw [← hdir] at hbounds
      obtain ⟨r, hr⟩ := hrows.2 ⟨c, hc, (PathKey.mem_subtree_iff.1 hbounds).1⟩
      exact ⟨r, Nat.add_pos_left hr _⟩
  · rintro ⟨r, hr⟩
    unfold told at hr
    rcases Nat.add_pos_iff_pos_or_pos.1 hr with hr | hr
    · have hsum := built.own_add_range key r
      have hboth : 0 < (snap.rows.get? key.asStr).elim 0 (fun stored => stored.2.count r) +
          ((snap.rows.range key.subtreeBounds.1 key.subtreeBounds.2).map
            fun e => e.2.2.count r).sum := by omega
      rcases Nat.add_pos_iff_pos_or_pos.1 hboth with h | h
      · left; right
        cases hget : snap.rows.get? key.asStr with
        | none => rw [hget] at h; exact absurd h (lt_irrefl 0)
        | some stored =>
          exact ⟨stored, rfl, built.row_root t.agrees t.mem t.under (e := (key.asStr, stored))
            (.inr ⟨hget, rfl⟩)⟩
      · right
        cases hrange : snap.rows.range key.subtreeBounds.1 key.subtreeBounds.2 with
        | nil => rw [hrange] at h; exact absurd h (lt_irrefl 0)
        | cons e es =>
          have he : e ∈ snap.rows.range key.subtreeBounds.1 key.subtreeBounds.2 :=
            hrange ▸ List.mem_cons_self
          exact ⟨e, List.mem_cons_self, built.row_root t.agrees t.mem t.under (.inl he)⟩
    · split at hr
      · rw [← hsent] at hr
        left; left
        unfold OrdMap.contains
        cases hget : snap.sentinels.get? root with
        | none => rw [hget] at hr; exact absurd hr (lt_irrefl 0)
        | some count => rfl
      · exact absurd hr (lt_irrefl 0)

end Built

/-! ## Agreement of verdicts, dispositions and totals -/

theorem tally_le (cells : List OmissionCell) (P : OmissionCell → Bool) :
    tally cells P ≤ tally cells fun _ => true := by
  refine List.sum_le_sum fun c _ => ?_
  split
  · exact le_rfl
  · exact Nat.zero_le _

/-- An event is told twice at most, in the subtree and as the root's own. -/
theorem told_le (cells : List OmissionCell) (root key : PathKey) (r : OmissionReason) :
    told cells root key r ≤ 2 * tally cells fun _ => true := by
  unfold told
  have hunder := tally_le cells fun c => c.directory.isAtOrUnder key && decide (c.reason = r)
  have hown := tally_le cells fun c => decide (c.reason = .walkError ∧ c.directory = root)
  split <;> omega

/-- A verdict that says what the disposition says, and counts what it has to count. -/
def VerdictExact (snap : CompletenessSnapshot) (cells : List OmissionCell) (path : Path) : Prop :=
  match snap.verdict path with
  | .ok .complete => snap.disposition path = .trusted
  | .ok .unknown => snap.disposition path = .untrusted
  | .ok (.incomplete s) => snap.disposition path = .suppressed ∧
      ∃ root key, PathKey.new path = some key ∧ snap.owningRoot path = some root ∧
        ∀ r, s.count r = told cells root key r
  | .error _ => False

/-- The path is the file system's root and a cell is stored at that very directory: the row is read
once as itself and once as part of its own interval. -/
def ReadTwice (snap : CompletenessSnapshot) (cells : List OmissionCell) (path : Path) : Prop :=
  ∃ root key, Trusts snap path root key ∧ key.segments = [] ∧ ∃ c ∈ cells, c.directory = key

/-- A figure that the verdict has to tell is none of the word's. -/
def LeavesWord (snap : CompletenessSnapshot) (cells : List OmissionCell) (path : Path) : Prop :=
  ∃ root key, Trusts snap path root key ∧ ∃ r, 2 ^ 64 ≤ told cells root key r

theorem again_pos {cells : List OmissionCell} {key : PathKey} :
    (∃ r, 0 < again cells key r) ↔ key.segments = [] ∧ ∃ c ∈ cells, c.directory = key := by
  unfold again
  constructor
  · rintro ⟨r, hr⟩
    split at hr
    · rename_i hkey
      obtain ⟨c, hc, hP⟩ := tally_pos.1 hr
      simp only [Bool.and_eq_true, decide_eq_true_eq] at hP
      exact ⟨hkey, c, hc, hP.1⟩
    · exact absurd hr (lt_irrefl 0)
  · rintro ⟨hkey, c, hc, hdir⟩
    refine ⟨c.reason, ?_⟩
    rw [if_pos hkey]
    exact tally_pos.2 ⟨c, hc, by simp [hdir]⟩

namespace Built

variable {snap : CompletenessSnapshot} {roots : List Path} {cells : List OmissionCell}
variable {path : Path} {root key : PathKey}

theorem disposition_eq (built : Built snap roots cells) (t : Trusts snap path root key) :
    snap.disposition path = .suppressed ∧ (∃ r, 0 < told cells root key r) ∨
      snap.disposition path = .trusted ∧ ∀ r, told cells root key r = 0 := by
  unfold CompletenessSnapshot.disposition
  simp only [t.keyed, t.owned, t.trusted, not_true_eq_false, if_false]
  by_cases h : snap.omittedAtOrUnder root key = true
  · rw [if_pos h]
    exact .inl ⟨rfl, (built.omittedAtOrUnder_iff t).1 h⟩
  · rw [if_neg h]
    rw [built.omittedAtOrUnder_iff t] at h
    exact .inr ⟨rfl, fun r => Nat.eq_zero_of_not_pos fun hr => h ⟨r, hr⟩⟩

/-- Without a trusted root both classifiers know nothing. -/
theorem unknown_of_not_trusts (h : ∀ root key, ¬ Trusts snap path root key) :
    snap.verdict path = .ok .unknown ∧ snap.disposition path = .untrusted := by
  unfold CompletenessSnapshot.verdict CompletenessSnapshot.disposition
  cases hkey : PathKey.new path with
  | none => exact ⟨rfl, rfl⟩
  | some key =>
    cases hroot : snap.owningRoot path with
    | none => exact ⟨rfl, rfl⟩
    | some root =>
      by_cases ht : snap.trustedRoot root = true
      · exact absurd ⟨hkey, hroot, ht⟩ (h root key)
      · simp only [ht]
        exact ⟨rfl, rfl⟩

theorem readTwice_iff (t : Trusts snap path root key) :
    ReadTwice snap cells path ↔ ∃ r, 0 < again cells key r := by
  rw [again_pos]
  constructor
  · rintro ⟨root', key', t', hread⟩
    obtain rfl := Option.some.inj (t.keyed.symm.trans t'.keyed)
    exact hread
  · exact fun hread => ⟨root, key, t, hread⟩

theorem leavesWord_iff (t : Trusts snap path root key) :
    LeavesWord snap cells path ↔ ∃ r, 2 ^ 64 ≤ told cells root key r := by
  constructor
  · rintro ⟨root', key', t', hleaves⟩
    obtain rfl := Option.some.inj (t.keyed.symm.trans t'.keyed)
    obtain rfl := Option.some.inj (t.owned.symm.trans t'.owned)
    exact hleaves
  · exact fun hleaves => ⟨root, key, t, hleaves⟩

/-- The verdict of one path is exact unless a row is read twice or a figure leaves the word. -/
theorem verdictExact_iff (built : Built snap roots cells) (path : Path) :
    VerdictExact snap cells path ↔
      ¬ ReadTwice snap cells path ∧ ¬ LeavesWord snap cells path := by
  by_cases ht : ∃ root key, Trusts snap path root key
  case neg =>
    simp only [not_exists] at ht
    obtain ⟨hv, hd⟩ := unknown_of_not_trusts ht
    refine iff_of_true ?_
      ⟨fun ⟨root, key, t, _⟩ => ht root key t, fun ⟨root, key, t, _⟩ => ht root key t⟩
    unfold VerdictExact
    rw [hv]
    exact hd
  case pos =>
    obtain ⟨root, key, t⟩ := ht
    rw [readTwice_iff t, leavesWord_iff t]
    simp only [not_exists, Nat.pos_iff_ne_zero, ne_eq, not_not, not_le]
    have hcounted := built.verdict_counted t
    have hdisp := built.disposition_eq t
    unfold VerdictExact
    match hv : snap.verdict path with
    | .ok .complete =>
      rw [hv] at hcounted
      have hzero : ∀ r, told cells root key r = 0 ∧ again cells key r = 0 :=
        fun r => Nat.add_eq_zero_iff.1 (hcounted r)
      refine iff_of_true ?_ ⟨fun r => (hzero r).2, fun r => (hzero r).1 ▸ by decide⟩
      rcases hdisp with ⟨-, r, hr⟩ | ⟨hd, -⟩
      · exact absurd (hzero r).1 hr.ne'
      · exact hd
    | .ok .unknown => rw [hv] at hcounted; exact hcounted.elim
    | .ok (.incomplete s) =>
      rw [hv] at hcounted
      simp only [Counted] at hcounted
      obtain ⟨⟨r₀, hr₀⟩, hs⟩ := hcounted
      constructor
      · rintro ⟨-, root', key', hkey', hroot', hexact⟩
        obtain rfl := Option.some.inj (t.keyed.symm.trans hkey')
        obtain rfl := Option.some.inj (t.owned.symm.trans hroot')
        refine ⟨fun r => ?_, fun r => hexact r ▸ s.count_lt r⟩
        have := (hs r).symm.trans (hexact r)
        omega
      · rintro ⟨hagain, -⟩
        refine ⟨?_, root, key, t.keyed, t.owned, fun r => by rw [hs r, hagain r, Nat.add_zero]⟩
        rcases hdisp with ⟨hd, -⟩ | ⟨-, hzero⟩
        · exact hd
        · rw [hzero r₀, hagain r₀] at hr₀
          exact absurd hr₀ (lt_irrefl 0)
    | .error e =>
      rw [hv] at hcounted
      simp only [Counted] at hcounted
      obtain ⟨r₀, hr₀⟩ := hcounted
      refine iff_of_false id ?_
      rintro ⟨hagain, hfit⟩
      rw [hagain r₀, Nat.add_zero] at hr₀
      exact absurd (hfit r₀) (not_lt.2 hr₀)

/-- Where a figure leaves the word the verdict is refused, never wrapped. -/
theorem refused_of_leavesWord (built : Built snap roots cells) {path : Path}
    (h : LeavesWord snap cells path) :
    snap.disposition path = .suppressed ∧ ∃ e, snap.verdict path = .error e := by
  obtain ⟨root, key, t, r, hr⟩ := h
  have hcounted := built.verdict_counted t
  constructor
  · rcases built.disposition_eq t with ⟨hd, -⟩ | ⟨-, hzero⟩
    · exact hd
    · exact absurd (hzero r ▸ hr) (by decide)
  · match hv : snap.verdict path with
    | .ok .complete =>
      rw [hv] at hcounted
      exact absurd ((Nat.add_eq_zero_iff.1 (hcounted r)).1 ▸ hr) (by decide)
    | .ok .unknown => rw [hv] at hcounted; exact hcounted.elim
    | .ok (.incomplete s) =>
      rw [hv] at hcounted
      have hfit := s.count_lt r
      rw [hcounted.2 r] at hfit
      exact absurd ((Nat.le_add_right _ _).trans_lt hfit) (not_lt.2 hr)
    | .error e => exact ⟨e, rfl⟩

end Built

/-! ## The scan-wide totals -/

/-- The events of one reason that a verdict speaks of. -/
def DirCompleteness.count : DirCompleteness → OmissionReason → Nat
  | .incomplete s, r => s.count r
  | _, _ => 0

/-- The totals are the sums of what the verdicts of the roots say. -/
def AccountingExact (snap : CompletenessSnapshot) (roots : List Path) : Prop :=
  ∃ totals, snap.scanAccounting = .ok (.exact totals) ∧
    ∃ verdicts : List DirCompleteness, roots.map snap.verdict = verdicts.map .ok ∧
      .unknown ∉ verdicts ∧ ∀ r, totals.count r = (verdicts.map fun v => v.count r).sum

/-- A cell is stored at the file system's root. -/
def TotalReadTwice (cells : List OmissionCell) : Prop := ∃ c ∈ cells, c.directory.segments = []

/-- A total of the scan is none of the word's. -/
def TotalLeavesWord (cells : List OmissionCell) : Prop :=
  ∃ r, 2 ^ 64 ≤ tally cells fun c => decide (c.reason = r)

theorem eventsOf_flatMap {α : Type} (f : α → List (OmissionReason × EventCount))
    (r : OmissionReason) : ∀ l : List α,
      eventsOf (l.flatMap f) r = (l.map fun a => eventsOf (f a) r).sum
  | [] => rfl
  | a :: l => by
    rw [List.flatMap_cons, List.map_cons, List.sum_cons, ← eventsOf_flatMap f r l]
    simp [eventsOf]

/-- Of keys that lie apart, exactly one lies over a place under one of them. -/
theorem sum_over_roots {keys : List PathKey} (hnodup : keys.Nodup)
    (hapart : ∀ a ∈ keys, ∀ b ∈ keys, b.isAtOrUnder a = true → a = b) {k root : PathKey}
    (hroot : root ∈ keys) (hunder : k.isAtOrUnder root = true) (n : Nat) :
    (keys.map fun a => if k.isAtOrUnder a = true then n else 0).sum = n := by
  have hiff : ∀ a ∈ keys, (k.isAtOrUnder a = true ↔ a = root) := by
    intro a ha
    constructor
    · intro h
      rcases PathKey.isAtOrUnder_total h hunder with h' | h'
      · exact (hapart root hroot a ha h').symm
      · exact hapart a ha root hroot h'
    · rintro rfl; exact hunder
  rw [List.map_congr_left fun a ha => by rw [if_congr (hiff a ha) rfl rfl]]
  clear hiff hapart hunder
  induction keys with
  | nil => exact absurd hroot List.not_mem_nil
  | cons a keys ih =>
    obtain ⟨ha, hnodup⟩ := List.nodup_cons.1 hnodup
    rw [List.map_cons, List.sum_cons]
    rcases List.mem_cons.1 hroot with rfl | hroot
    · have hzero : ∀ x ∈ keys, (if x = root then n else 0) = 0 :=
        fun x hx => if_neg fun h : x = root => ha (h ▸ hx)
      rw [if_pos rfl, List.map_congr_left hzero]
      simp
    · rw [if_neg fun h : a = root => ha (h ▸ hroot), Nat.zero_add, ih hnodup hroot]

/-- The cells under the single roots are the cells. -/
theorem tally_roots {keys : List PathKey} (hnodup : keys.Nodup)
    (hapart : ∀ a ∈ keys, ∀ b ∈ keys, b.isAtOrUnder a = true → a = b) (P : OmissionCell → Bool) :
    ∀ {cells : List OmissionCell},
      (∀ c ∈ cells, ∃ root ∈ keys, c.directory.isAtOrUnder root = true) →
      (keys.map fun k => tally cells fun c => c.directory.isAtOrUnder k && P c).sum = tally cells P
  | [], _ => by simp [tally]
  | c :: cs, h => by
    obtain ⟨root, hroot, hunder⟩ := h c List.mem_cons_self
    have hcons : ∀ Q : OmissionCell → Bool,
        tally (c :: cs) Q = (if Q c then c.count.get else 0) + tally cs Q := fun _ => rfl
    simp only [hcons]
    rw [List.sum_map_add, tally_roots hnodup hapart P fun x hx => h x (List.mem_cons_of_mem _ hx)]
    congr 1
    cases hP : P c
    · simp
    · simp only [Bool.and_true, if_true]
      exact sum_over_roots hnodup hapart hroot hunder c.count.get

namespace Built

variable {snap : CompletenessSnapshot} {roots : List Path} {cells : List OmissionCell}

theorem totals_count (built : Built snap roots cells) (r : OmissionReason) :
    eventsOf (snap.rows.values.flatMap fun stored => stored.2.perReason.entries) r =
      tally cells fun c => decide (c.reason = r) := by
  have h := built.rows.sum (fun _ => true) r
  simp only [if_true, Bool.true_and] at h
  rw [eventsOf_flatMap, ← h, OrdMap.values, List.map_map]
  refine congrArg List.sum (List.map_congr_left fun e _ => ?_)
  exact OmissionSummary.eventsOf_perReason _ r

theorem accounting_eq (built : Built snap roots cells) (hauth : snap.fullyAuthoritative = true) :
    match snap.scanAccounting with
    | .ok (.exact totals) => ∀ r, totals.count r = tally cells fun c => decide (c.reason = r)
    | .ok .unavailable => False
    | .error _ => ∃ r, 2 ^ 64 ≤ tally cells fun c => decide (c.reason = r) := by
  unfold CompletenessSnapshot.scanAccounting CompletenessSnapshot.foldTotals
  simp only [hauth, not_true_eq_false, if_false]
  cases hadd : OmissionSummary.default.addAll
      (snap.rows.values.flatMap fun stored => stored.2.perReason.entries) with
  | error e =>
    obtain ⟨r, hr⟩ := OmissionSummary.addAll_error hadd
    rw [built.totals_count, OmissionSummary.count_default, Nat.zero_add] at hr
    exact ⟨r, hr⟩
  | ok totals =>
    intro r
    rw [OmissionSummary.addAll_ok hadd r, built.totals_count, OmissionSummary.count_default,
      Nat.zero_add]

/-- Under full authority every configured root is trusted, by its own key. -/
theorem trusts_root (built : Built snap roots cells) (hauth : snap.fullyAuthoritative = true)
    {path : Path} {key : PathKey} (hkey : PathKey.new path = some key)
    (hmem : key ∈ snap.configured) : Trusts snap path key key := by
  obtain ⟨hagrees, hall⟩ := Bool.and_eq_true_iff.1 hauth
  refine ⟨hkey, built.owningRoot hkey hmem (PathKey.isAtOrUnder_refl key), ?_⟩
  unfold CompletenessSnapshot.trustedRoot
  obtain ⟨g, hg⟩ : ∃ g, snap.registered.get? key = some g :=
    Option.isSome_iff_exists.1 (OrdMap.contains_iff.2 ((built.agrees hagrees key).2 hmem))
  have hpos := List.all_eq_true.1 hall g
    (List.mem_map.2 ⟨(key, g), OrdMap.mem_entries.2 hg, rfl⟩)
  rw [hagrees, hg, Bool.true_and]
  exact hpos

/-- What the verdicts of the roots say, one root after another. -/
theorem root_verdicts (built : Built snap roots cells) (hauth : snap.fullyAuthoritative = true) :
    ∀ {paths : List Path} {keys : List PathKey}, paths.map PathKey.new = keys.map some →
      (∀ k ∈ keys, k ∈ snap.configured) →
      (∀ k ∈ keys, ∀ r, told cells k k r + again cells k r < 2 ^ 64) →
      ∃ verdicts : List DirCompleteness, paths.map snap.verdict = verdicts.map .ok ∧
        .unknown ∉ verdicts ∧ ∀ r, (verdicts.map fun v => v.count r).sum =
          (keys.map fun k => told cells k k r + again cells k r).sum
  | [], [], _, _, _ => ⟨[], rfl, List.not_mem_nil, fun _ => rfl⟩
  | [], _ :: _, h, _, _ => by cases h
  | _ :: _, [], h, _, _ => by cases h
  | path :: paths, key :: keys, h, hmem, hfit => by
    obtain ⟨hkey, hrest⟩ := List.cons.inj h
    obtain ⟨verdicts, hv, hunknown, hsum⟩ := built.root_verdicts hauth hrest
      (fun k hk => hmem k (List.mem_cons_of_mem _ hk))
      (fun k hk => hfit k (List.mem_cons_of_mem _ hk))
    have t := built.trusts_root hauth hkey (hmem key List.mem_cons_self)
    have hcounted := built.verdict_counted t
    obtain ⟨v, hvk, hne, hcount⟩ : ∃ v, snap.verdict path = .ok v ∧ v ≠ .unknown ∧
        ∀ r, v.count r = told cells key key r + again cells key r := by
      match hv : snap.verdict path with
      | .ok .complete =>
        rw [hv] at hcounted
        exact ⟨.complete, rfl, by simp, fun r => (hcounted r).symm⟩
      | .ok .unknown => rw [hv] at hcounted; exact hcounted.elim
      | .ok (.incomplete s) =>
        rw [hv] at hcounted
        exact ⟨.incomplete s, rfl, by simp, hcounted.2⟩
      | .error e =>
        rw [hv] at hcounted
        obtain ⟨r, hr⟩ := hcounted
        exact absurd (hfit key List.mem_cons_self r) (not_lt.2 hr)
    refine ⟨v :: verdicts, ?_, ?_, fun r => ?_⟩
    · rw [List.map_cons, List.map_cons, hvk, hv]
    · rw [List.mem_cons, not_or]
      exact ⟨hne.symm, hunknown⟩
    · rw [List.map_cons, List.map_cons, List.sum_cons, List.sum_cons, hcount r, hsum r]

section Roots

variable {keys : List PathKey}

/-- Under full authority every cell lies under one of the roots. -/
theorem covered (built : Built snap roots cells) (hauth : snap.fullyAuthoritative = true)
    (hperm : snap.configured.Perm keys) :
    ∀ c ∈ cells, ∃ root ∈ keys, c.directory.isAtOrUnder root = true := by
  intro c hc
  obtain ⟨hagrees, -⟩ := Bool.and_eq_true_iff.1 hauth
  obtain ⟨hunder, hreg⟩ := built.under c hc
  exact ⟨c.root, hperm.mem_iff.1 ((built.agrees hagrees c.root).1 hreg), hunder⟩

/-- What the roots are told comes to what the cells hold. -/
theorem told_sum (built : Built snap roots cells) (hauth : snap.fullyAuthoritative = true)
    (hperm : snap.configured.Perm keys) (r : OmissionReason) :
    (keys.map fun k => told cells k k r).sum = tally cells fun c => decide (c.reason = r) := by
  have hapart : ∀ a ∈ keys, ∀ b ∈ keys, b.isAtOrUnder a = true → a = b :=
    fun a ha b hb => built.apart a (hperm.mem_iff.2 ha) b (hperm.mem_iff.2 hb)
  rw [← tally_roots (hperm.nodup_iff.1 built.nodup) hapart (fun c => decide (c.reason = r))
    (built.covered hauth hperm)]
  refine congrArg List.sum (List.map_congr_left fun k _ => ?_)
  rw [told, if_neg (fun h => h.1 rfl), Nat.add_zero]

/-- Where every root has a verdict, its figures fit a word. -/
theorem root_fits (built : Built snap roots cells) (hauth : snap.fullyAuthoritative = true)
    (hroots : roots.map PathKey.new = keys.map some) (hperm : snap.configured.Perm keys)
    {verdicts : List DirCompleteness} (hv : roots.map snap.verdict = verdicts.map .ok) :
    ∀ k ∈ keys, ∀ r, told cells k k r + again cells k r < 2 ^ 64 := by
  intro k hk r
  have hkey : some k ∈ roots.map PathKey.new := hroots ▸ List.mem_map.2 ⟨k, hk, rfl⟩
  obtain ⟨path, hp, hnew⟩ := List.mem_map.1 hkey
  have hcounted := built.verdict_counted (built.trusts_root hauth hnew (hperm.mem_iff.2 hk))
  have hok : snap.verdict path ∈ verdicts.map Except.ok := hv ▸ List.mem_map.2 ⟨path, hp, rfl⟩
  obtain ⟨v, -, hvp⟩ := List.mem_map.1 hok
  rw [← hvp] at hcounted
  match v with
  | .complete => exact (hcounted r).trans_lt (by decide)
  | .unknown => exact hcounted.elim
  | .incomplete s => exact (hcounted.2 r).symm.trans_lt (s.count_lt r)

/-- A cell at the root of the file system is one root's own, and that root counts it twice. -/
theorem again_of_slash (built : Built snap roots cells) (hauth : snap.fullyAuthoritative = true)
    (hperm : snap.configured.Perm keys) {c : OmissionCell} (hc : c ∈ cells)
    (hseg : c.directory.segments = []) :
    0 < (keys.map fun k => again cells k c.reason).sum := by
  obtain ⟨root, hroot, hunder⟩ := built.covered hauth hperm c hc
  have hdir : c.directory = root :=
    PathKey.isAtOrUnder_antisymm hunder (PathKey.isAtOrUnder_iff.2 (hseg ▸ List.nil_prefix))
  have hagain : 0 < again cells root c.reason := by
    unfold again
    rw [if_pos (hdir ▸ hseg)]
    exact tally_pos.2 ⟨c, hc, by simp [hdir]⟩
  exact hagain.trans_le
    (List.single_le_sum (fun _ _ => Nat.zero_le _) _ (List.mem_map.2 ⟨root, hroot, rfl⟩))

end Roots

/-- The totals of the scan are exact unless a row is read twice or a total leaves the word. -/
theorem accountingExact_iff (built : Built snap roots cells)
    (hauth : snap.fullyAuthoritative = true) :
    AccountingExact snap roots ↔ ¬ TotalReadTwice cells ∧ ¬ TotalLeavesWord cells := by
  obtain ⟨keys, hroots, hperm⟩ := built.roots
  have hmem : ∀ k ∈ keys, k ∈ snap.configured := fun k hk => hperm.mem_iff.2 hk
  have hacc := built.accounting_eq hauth
  constructor
  · rintro ⟨totals, ha, verdicts, hv, -, htotals⟩
    rw [ha] at hacc
    refine ⟨?_, fun ⟨r, hr⟩ => absurd (hacc r ▸ totals.count_lt r) (not_lt.2 hr)⟩
    rintro ⟨c, hc, hseg⟩
    have hpos := built.again_of_slash hauth hperm hc hseg
    obtain ⟨verdicts', hv', -, hsum'⟩ := built.root_verdicts hauth hroots hmem
      (built.root_fits hauth hroots hperm hv)
    obtain rfl : verdicts = verdicts' :=
      List.map_injective_iff.2 (fun _ _ h => Except.ok.inj h) (hv.symm.trans hv')
    have hr := (htotals c.reason).symm.trans (hacc c.reason)
    rw [hsum' c.reason, List.sum_map_add, built.told_sum hauth hperm c.reason] at hr
    omega
  · rintro ⟨hslash, hfit⟩
    unfold TotalLeavesWord at hfit
    simp only [not_exists, not_le] at hfit
    have hagain : ∀ k r, again cells k r = 0 := by
      intro k r
      refine Nat.eq_zero_of_not_pos fun hr => hslash ?_
      obtain ⟨hseg, c, hc, hdir⟩ := again_pos.1 ⟨r, hr⟩
      exact ⟨c, hc, hdir ▸ hseg⟩
    have hfits : ∀ k ∈ keys, ∀ r, told cells k k r + again cells k r < 2 ^ 64 := by
      intro k hk r
      rw [hagain, Nat.add_zero]
      refine lt_of_le_of_lt ?_ (hfit r)
      rw [← built.told_sum hauth hperm r]
      exact List.single_le_sum (fun _ _ => Nat.zero_le _) _ (List.mem_map.2 ⟨k, hk, rfl⟩)
    unfold AccountingExact
    match ha : snap.scanAccounting with
    | .ok .unavailable => rw [ha] at hacc; exact hacc.elim
    | .error e =>
      rw [ha] at hacc
      obtain ⟨r, hr⟩ := hacc
      exact absurd (hfit r) (not_lt.2 hr)
    | .ok (.exact totals) =>
      rw [ha] at hacc
      obtain ⟨verdicts, hv, hunknown, hsum'⟩ := built.root_verdicts hauth hroots hmem hfits
      refine ⟨totals, rfl, verdicts, hv, hunknown, fun r => ?_⟩
      rw [hsum' r, hacc r, ← built.told_sum hauth hperm r]
      simp only [hagain, Nat.add_zero]

/-- Where a total leaves the word the totals are refused, never wrapped. -/
theorem refused_of_totalLeavesWord (built : Built snap roots cells)
    (hauth : snap.fullyAuthoritative = true) (h : TotalLeavesWord cells) :
    ∃ e, snap.scanAccounting = .error e := by
  obtain ⟨r, hr⟩ := h
  have hacc := built.accounting_eq hauth
  match ha : snap.scanAccounting with
  | .ok .unavailable => rw [ha] at hacc; exact hacc.elim
  | .error e => exact ⟨e, rfl⟩
  | .ok (.exact totals) =>
    rw [ha] at hacc
    exact absurd (hacc r ▸ totals.count_lt r) (not_lt.2 hr)

end Built

/-- **One ledger, three readings.** In a built snapshot the verdict of a path says what its
disposition says and counts every cell at or under it once, with the root's walk errors for a path
below its root, exactly when no row is read twice and no figure leaves the word, where it is refused;
and so for the totals of the scan against the verdicts of its roots. -/
theorem snapshot_exact_iff {configuredRoots : List Path} {registered : List (Bytes × Int)}
    {rows : List StoredOmission} {snap : CompletenessSnapshot}
    (h : CompletenessSnapshot.build configuredRoots registered rows = .ok (.bounded snap)) :
    (∀ path, (VerdictExact snap (currentCells snap.registered rows) path ↔
        ¬ ReadTwice snap (currentCells snap.registered rows) path ∧
          ¬ LeavesWord snap (currentCells snap.registered rows) path) ∧
      (LeavesWord snap (currentCells snap.registered rows) path →
        snap.disposition path = .suppressed ∧ ∃ e, snap.verdict path = .error e)) ∧
    (snap.fullyAuthoritative = true →
      (AccountingExact snap configuredRoots ↔
        ¬ TotalReadTwice (currentCells snap.registered rows) ∧
          ¬ TotalLeavesWord (currentCells snap.registered rows)) ∧
      (TotalLeavesWord (currentCells snap.registered rows) →
        ∃ e, snap.scanAccounting = .error e)) := by
  have built := build_built h
  exact ⟨fun path => ⟨built.verdictExact_iff path, built.refused_of_leavesWord⟩, fun hauth =>
    ⟨built.accountingExact_iff hauth, built.refused_of_totalLeavesWord hauth⟩⟩

/-- A scan of `/t` that left out three small files in `/t/a` and could not read `/t/b`. -/
def leftOutRows : List StoredOmission :=
  [⟨[47, 116], [47, 116, 47, 97], "min_size", 3, 1⟩, ⟨[47, 116], [47, 116, 47, 98], "walk_error", 1, 1⟩]

theorem snapshot_exact_leftOut :
    ∃ snap, CompletenessSnapshot.build [[.rootDir, .normal ⟨[116], by decide⟩]] [([47, 116], 1)]
        leftOutRows = .ok (.bounded snap) ∧
      (∀ path, VerdictExact snap (currentCells snap.registered leftOutRows) path) ∧
      AccountingExact snap [[.rootDir, .normal ⟨[116], by decide⟩]] := by
  refine ⟨_, rfl, ?_⟩
  obtain ⟨hpath, htotal⟩ := @snapshot_exact_iff [[.rootDir, .normal ⟨[116], by decide⟩]]
    [([47, 116], 1)] leftOutRows _ rfl
  have hdirs : ∀ c ∈ currentCells ⟨[(⟨[[116]], by decide⟩, 1)], List.pairwise_singleton _ _⟩
      leftOutRows, c.directory.segments ≠ [] := by decide
  have hevents : tally (currentCells ⟨[(⟨[[116]], by decide⟩, 1)], List.pairwise_singleton _ _⟩
      leftOutRows) (fun _ => true) = 4 := by decide
  refine ⟨fun path => (hpath path).1.2 ⟨?_, ?_⟩, (htotal (by decide)).1.2 ⟨?_, ?_⟩⟩
  · rintro ⟨root, key, t, hseg, c, hc, hdir⟩
    exact hdirs c hc (hdir ▸ hseg)
  · rintro ⟨root, key, t, r, hr⟩
    have hle := hr.trans ((told_le _ root key r).trans_eq (congrArg (2 * ·) hevents))
    exact absurd hle (by decide)
  · rintro ⟨c, hc, hseg⟩
    exact hdirs c hc hseg
  · rintro ⟨r, hr⟩
    have hle := hr.trans ((tally_le _ _).trans_eq hevents)
    exact absurd hle (by decide)

/-- A scan of `/` that left out one small file in `/` itself: the verdict says two. -/
theorem not_snapshot_exact :
    ¬ ∀ (configuredRoots : List Path) (registered : List (Bytes × Int))
        (rows : List StoredOmission) (snap : CompletenessSnapshot),
      CompletenessSnapshot.build configuredRoots registered rows = .ok (.bounded snap) →
      (∀ path, VerdictExact snap (currentCells snap.registered rows) path) ∧
      (snap.fullyAuthoritative = true → AccountingExact snap configuredRoots) := by
  intro h
  have hpath := (h [[.rootDir]] [([47], 1)] [⟨[47], [47], "min_size", 1, 1⟩] _ rfl).1 [.rootDir]
  obtain ⟨-, root, key, hkey, hroot, hcount⟩ := hpath
  have hslash : PathKey.new [.rootDir] = some ⟨[], by decide⟩ := rfl
  obtain rfl := Option.some.inj (hslash.symm.trans hkey)
  have htwo := hcount .minSize
  rw [told, if_neg (fun h => absurd h.2 (by decide)), Nat.add_zero] at htwo
  exact absurd htwo (by decide)

end DedupCommando
