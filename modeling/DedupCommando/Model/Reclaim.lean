import DedupCommando.Lib.Checked

/-!
# Reclaim figures and how far they can be trusted

`ReclaimState`, `LinkCount` and `ReclaimEstimate` of `model/reclaim.rs`.

Principal results: `forFreshScan_ok` — a scan-level fold over parts none of which is unknown
succeeds only with the exact sums; `forFreshScan_total` — and it succeeds whenever the sum of the
ceilings stays in the persisted integer domain.
-/

set_option autoImplicit false

namespace DedupCommando

open Checked

/-- `error::AppError` with its message. -/
structure AppError where
  message : String
  deriving DecidableEq, Repr

def i64Max : Nat := 2 ^ 63 - 1

/-- Trust in a persisted reclaim figure. -/
inductive ReclaimState where
  | unknown
  | exact
  | upperBound
  deriving DecidableEq, Repr

/-- A link count as persisted in `file.nlink`. -/
inductive LinkCount where
  | unknown
  | known (count : Nat)
  deriving DecidableEq, Repr

def LinkCount.describe : LinkCount → String
  | .unknown => "unrecorded"
  | .known count => toString count

/-- The one count an allocation's pathnames agree on, from the two extremes they reported. -/
def LinkCount.agreed (low high : LinkCount) (named : String) : Except AppError LinkCount :=
  if low = high then .ok low
  else .error ⟨s!"dedcom.db holds different link counts ({low.describe} and {high.describe}) for " ++
    s!"the one allocation behind {named}; its pathnames are the same inode and cannot disagree. " ++
    "Rescan, or move the old dedcom.db aside."⟩

/-- A reclaim figure together with the trust that makes it mean something. -/
structure ReclaimEstimate where
  state : ReclaimState
  guaranteedBytes : Nat
  ceilingBytes : Nat
  deriving DecidableEq, Repr

namespace ReclaimEstimate

def unknown : ReclaimEstimate := ⟨.unknown, 0, 0⟩

def exact (bytes : Nat) : ReclaimEstimate := ⟨.exact, bytes, bytes⟩

def upperBound (ceiling : Nat) : ReclaimEstimate := ⟨.upperBound, 0, ceiling⟩

def potentialBytes (e : ReclaimEstimate) : Option Nat :=
  match e.state with
  | .unknown => none
  | _ => some e.ceilingBytes

/-- The figure the `reclaim` column carries: the ceiling when trusted, a hard zero otherwise. -/
def persistedBytes (e : ReclaimEstimate) : Nat :=
  match e.state with
  | .unknown => 0
  | _ => e.ceilingBytes

def scanOverflow : AppError :=
  ⟨"the scan's reclaim total does not fit dedcom.db's integer column"⟩

/-- The loop of `for_fresh_scan` from the accumulators it has reached. -/
def forFreshScanFrom (state : ReclaimState) (guaranteed ceiling : Nat) :
    List ReclaimEstimate → Except AppError ReclaimEstimate
  | [] => if ceiling ≤ i64Max then .ok ⟨state, guaranteed, ceiling⟩ else .error scanOverflow
  | group :: groups =>
    let go (state : ReclaimState) : Except AppError ReclaimEstimate :=
      match checkedAdd 64 guaranteed group.guaranteedBytes with
      | none => .error scanOverflow
      | some guaranteed =>
        match checkedAdd 64 ceiling group.persistedBytes with
        | none => .error scanOverflow
        | some ceiling => forFreshScanFrom state guaranteed ceiling groups
    match group.state with
    | .unknown => .ok unknown
    | .upperBound => go .upperBound
    | .exact => go state

/-- The scan-level figure: the guaranteed total sums what is established, the ceiling sums every
    trusted ceiling, and one unknown group makes the whole total unknown. -/
def forFreshScan (groups : List ReclaimEstimate) : Except AppError ReclaimEstimate :=
  forFreshScanFrom .exact 0 0 groups

/-- The figure is an established one. -/
def Trusted (e : ReclaimEstimate) : Prop := e.state ≠ .unknown

theorem persistedBytes_of_trusted {e : ReclaimEstimate} (h : e.Trusted) :
    e.persistedBytes = e.ceilingBytes := by
  unfold persistedBytes
  split
  · rename_i hs; exact absurd hs h
  · rfl

/-- The state of the fold behind a group that is established. -/
def after (state : ReclaimState) (group : ReclaimEstimate) : ReclaimState :=
  if group.state = .upperBound then .upperBound else state

theorem after_ne_unknown {state : ReclaimState} (h : state ≠ .unknown) (group : ReclaimEstimate) :
    after state group ≠ .unknown := by
  unfold after
  split
  · simp
  · exact h

theorem forFreshScanFrom_cons {group : ReclaimEstimate} (hg : group.Trusted)
    (groups : List ReclaimEstimate) (state : ReclaimState) (guaranteed ceiling : Nat) :
    forFreshScanFrom state guaranteed ceiling (group :: groups) =
      if guaranteed + group.guaranteedBytes < 2 ^ 64 ∧ ceiling + group.ceilingBytes < 2 ^ 64 then
        forFreshScanFrom (after state group) (guaranteed + group.guaranteedBytes)
          (ceiling + group.ceilingBytes) groups
      else .error scanOverflow := by
  -- both sums are checked one after the other, so the refusal is the same whichever overflows
  have sums : ∀ next : Nat → Nat → Except AppError ReclaimEstimate,
      (match checkedAdd 64 guaranteed group.guaranteedBytes with
        | none => .error scanOverflow
        | some guaranteed =>
          match checkedAdd 64 ceiling group.ceilingBytes with
          | none => .error scanOverflow
          | some ceiling => next guaranteed ceiling) =
        if guaranteed + group.guaranteedBytes < 2 ^ 64 ∧ ceiling + group.ceilingBytes < 2 ^ 64 then
          next (guaranteed + group.guaranteedBytes) (ceiling + group.ceilingBytes)
        else .error scanOverflow := by
    intro next
    by_cases h₁ : guaranteed + group.guaranteedBytes < 2 ^ 64
    · by_cases h₂ : ceiling + group.ceilingBytes < 2 ^ 64
      · rw [checkedAdd_of_lt h₁, checkedAdd_of_lt h₂, if_pos ⟨h₁, h₂⟩]
      · rw [checkedAdd_of_lt h₁, checkedAdd_of_le h₂, if_neg fun h => h₂ h.2]
    · rw [checkedAdd_of_le h₁, if_neg fun h => h₁ h.1]
  rw [forFreshScanFrom, persistedBytes_of_trusted hg]
  unfold after
  cases hs : group.state with
  | unknown => exact absurd hs hg
  | exact => exact sums _
  | upperBound => exact sums _

theorem forFreshScanFrom_ok {groups : List ReclaimEstimate} (ht : ∀ g ∈ groups, g.Trusted) :
    ∀ {state : ReclaimState} {guaranteed ceiling : Nat} {e : ReclaimEstimate},
      state ≠ .unknown → forFreshScanFrom state guaranteed ceiling groups = .ok e →
      e.Trusted ∧ e.guaranteedBytes = guaranteed + (groups.map guaranteedBytes).sum ∧
        e.ceilingBytes = ceiling + (groups.map ceilingBytes).sum ∧ e.ceilingBytes ≤ i64Max := by
  induction groups with
  | nil =>
    intro state guaranteed ceiling e hs h
    unfold forFreshScanFrom at h
    split at h
    · rename_i hc; cases h; exact ⟨hs, by simp, by simp, hc⟩
    · cases h
  | cons g gs ih =>
    intro state guaranteed ceiling e hs h
    rw [forFreshScanFrom_cons (ht g List.mem_cons_self) gs] at h
    split at h
    · obtain ⟨h₁, h₂, h₃, h₄⟩ :=
        ih (fun g hg => ht g (List.mem_cons_of_mem _ hg)) (after_ne_unknown hs g) h
      refine ⟨h₁, ?_, ?_, h₄⟩
      · rw [h₂, List.map_cons, List.sum_cons]; omega
      · rw [h₃, List.map_cons, List.sum_cons]; omega
    · cases h

/-- **A fold over established parts succeeds only with the exact sums.** -/
theorem forFreshScan_ok {groups : List ReclaimEstimate} (ht : ∀ g ∈ groups, g.Trusted)
    {e : ReclaimEstimate} (h : forFreshScan groups = .ok e) :
    e.Trusted ∧ e.guaranteedBytes = (groups.map guaranteedBytes).sum ∧
      e.ceilingBytes = (groups.map ceilingBytes).sum ∧ e.ceilingBytes ≤ i64Max := by
  simpa using forFreshScanFrom_ok ht (by simp) h

theorem forFreshScanFrom_total {groups : List ReclaimEstimate} (ht : ∀ g ∈ groups, g.Trusted) :
    ∀ (state : ReclaimState) (guaranteed ceiling : Nat),
      guaranteed + (groups.map guaranteedBytes).sum ≤ i64Max →
      ceiling + (groups.map ceilingBytes).sum ≤ i64Max →
      ∃ e, forFreshScanFrom state guaranteed ceiling groups = .ok e := by
  induction groups with
  | nil =>
    intro state guaranteed ceiling _ hc
    simp only [List.map_nil, List.sum_nil, Nat.add_zero] at hc
    exact ⟨_, if_pos hc⟩
  | cons g gs ih =>
    intro state guaranteed ceiling hg hc
    rw [List.map_cons, List.sum_cons] at hg hc
    have hfit : guaranteed + g.guaranteedBytes < 2 ^ 64 ∧ ceiling + g.ceilingBytes < 2 ^ 64 := by
      unfold i64Max at hg hc; omega
    rw [forFreshScanFrom_cons (ht g List.mem_cons_self) gs, if_pos hfit]
    exact ih (fun g hg => ht g (List.mem_cons_of_mem _ hg)) _ _ _ (by omega) (by omega)

/-- **A fold whose totals stay in the persisted domain succeeds.** -/
theorem forFreshScan_total {groups : List ReclaimEstimate} (ht : ∀ g ∈ groups, g.Trusted)
    (hg : (groups.map guaranteedBytes).sum ≤ i64Max)
    (hc : (groups.map ceilingBytes).sum ≤ i64Max) : ∃ e, forFreshScan groups = .ok e :=
  forFreshScanFrom_total ht _ _ _ (by simpa using hg) (by simpa using hc)

end ReclaimEstimate

end DedupCommando
