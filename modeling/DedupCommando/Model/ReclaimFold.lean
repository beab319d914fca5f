import DedupCommando.Model.GroupReclaim

/-!
# The total of a scan as a fold over its groups

* `OfGroup`, `GroupEstimate` — the figures one group can have.
* `forFreshScan_trusted`, `forFreshScan_unknown`, `forFreshScan_refused` — what the fold answers.
* `fromPersistedScan` — a stored total.
* `same_in_every_order` — **the fold is independent of the order** exactly when no part is unknown
  or the others together fit the word.
-/

set_option autoImplicit false

namespace DedupCommando.ReclaimEstimate

/-- `from_persisted_scan` -/
def fromPersistedScan (guaranteed ceiling state : Int) : Except AppError ReclaimEstimate :=
  match fromPersisted ceiling state with
  | .error e => .error e
  | .ok whole =>
    if whole.state ≠ .upperBound then .ok whole
    else if guaranteed < 0 then
      .error ⟨s!"dedcom.db holds a negative guaranteed total ({guaranteed}). Rescan, or move the old " ++
        "dedcom.db aside."⟩
    else .ok { whole with guaranteedBytes := guaranteed.toNat }

/-! ## The figures of one group -/

/-- Nothing, a figure that is exact, or a ceiling that promises nothing. -/
def OfGroup (e : ReclaimEstimate) : Prop :=
  e = unknown ∨ ∃ bytes, e = exact bytes ∨ e = upperBound bytes

theorem OfGroup.guaranteed_le {e : ReclaimEstimate} (h : e.OfGroup) :
    e.guaranteedBytes ≤ e.persistedBytes := by
  rcases h with rfl | ⟨bytes, rfl | rfl⟩
  · exact Nat.le_refl _
  · exact Nat.le_refl _
  · exact Nat.zero_le _

theorem OfGroup.persisted_unknown {e : ReclaimEstimate} (hu : ¬e.Trusted) :
    e.persistedBytes = 0 := by
  unfold Trusted at hu
  unfold persistedBytes
  rw [not_not.mp hu]

/-- The figure of one group. -/
structure GroupEstimate where
  figure : ReclaimEstimate
  ofGroup : figure.OfGroup

/-- A computed figure stays in the persisted integer domain. -/
theorem objectCeiling_le {size objectCount ceiling : Nat}
    (h : objectCeiling size objectCount = .ok ceiling) : ceiling ≤ i64Max := by
  unfold objectCeiling at h
  split at h
  · cases h
  · split at h
    · rename_i hle
      cases h
      exact hle
    · cases h

theorem ofGroup_forObjects {size : Nat} {objects : List ObjectLinks} {named : String}
    {e : ReclaimEstimate} (h : forObjects size objects named = .ok e) :
    e = unknown ∨ ∃ bytes ≤ i64Max, e = exact bytes ∨ e = upperBound bytes := by
  unfold forObjects at h
  split at h
  · cases h
  · rename_i ceiling hceiling
    have hle := objectCeiling_le hceiling
    split at h
    · cases h
    · cases h
      split
      · exact .inl rfl
      · split
        · exact .inr ⟨ceiling, hle, .inr rfl⟩
        · exact .inr ⟨ceiling, hle, .inl rfl⟩

theorem ofGroup_fromPersisted {reclaim state : Int} {e : ReclaimEstimate}
    (h : fromPersisted reclaim state = .ok e) : e.OfGroup := by
  unfold fromPersisted at h
  split at h
  · cases h
  · cases h
    exact .inl rfl
  · rename_i s hne _
    split at h
    · cases h
    · cases h
      cases s with
      | unknown => exact absurd rfl hne
      | exact => exact .inr ⟨_, .inl rfl⟩
      | upperBound => exact .inr ⟨_, .inr rfl⟩

/-! ## What the fold answers -/

/-- The sum of what the parts persist. -/
def bounds (groups : List ReclaimEstimate) : Nat := (groups.map persistedBytes).sum

theorem bounds_cons (group : ReclaimEstimate) (groups : List ReclaimEstimate) :
    bounds (group :: groups) = group.persistedBytes + bounds groups := List.sum_cons

theorem bounds_perm {groups groups' : List ReclaimEstimate} (h : groups.Perm groups') :
    bounds groups = bounds groups' := (h.map _).sum_eq

/-- The state of a total none of whose parts is unknown. -/
def worst (groups : List ReclaimEstimate) : ReclaimState :=
  if groups.any fun g => decide (g.state = .upperBound) then .upperBound else .exact

theorem foldl_after (groups : List ReclaimEstimate) (state : ReclaimState) :
    groups.foldl after state =
      if groups.any fun g => decide (g.state = .upperBound) then .upperBound else state := by
  induction groups generalizing state with
  | nil => rfl
  | cons g gs ih =>
    rw [List.foldl_cons, ih, List.any_cons]
    unfold after
    by_cases hg : g.state = .upperBound
    · simp [hg]
    · simp [hg]

theorem forFreshScanFrom_trusted : ∀ {groups : List ReclaimEstimate} (state : ReclaimState)
    {guaranteed ceiling : Nat}, (∀ g ∈ groups, g.OfGroup) → (∀ g ∈ groups, g.Trusted) →
    guaranteed ≤ ceiling →
    forFreshScanFrom state guaranteed ceiling groups =
      if ceiling + bounds groups ≤ i64Max then
        .ok ⟨groups.foldl after state, guaranteed + (groups.map guaranteedBytes).sum,
          ceiling + bounds groups⟩
      else .error scanOverflow
  | [], state, guaranteed, ceiling, _, _, _ => rfl
  | g :: gs, state, guaranteed, ceiling, hgroup, ht, hle => by
    have htg := ht g List.mem_cons_self
    have hg := (hgroup g List.mem_cons_self).guaranteed_le
    rw [persistedBytes_of_trusted htg] at hg
    rw [forFreshScanFrom_cons htg, bounds_cons, persistedBytes_of_trusted htg, List.foldl_cons,
      List.map_cons, List.sum_cons]
    by_cases hfit : ceiling + g.ceilingBytes < 2 ^ 64
    · rw [if_pos (by omega), forFreshScanFrom_trusted (after state g)
        (fun e he => hgroup e (List.mem_cons_of_mem _ he))
        (fun e he => ht e (List.mem_cons_of_mem _ he)) (by omega), Nat.add_assoc, Nat.add_assoc]
    · rw [if_neg (fun h => hfit h.2), if_neg (by unfold i64Max; omega)]

/-- Established parts: their sums, where the ceilings together stay in the persisted domain. -/
theorem forFreshScan_trusted {groups : List ReclaimEstimate} (hgroup : ∀ g ∈ groups, g.OfGroup)
    (ht : ∀ g ∈ groups, g.Trusted) :
    forFreshScan groups =
      if bounds groups ≤ i64Max then
        .ok ⟨worst groups, (groups.map guaranteedBytes).sum, bounds groups⟩
      else .error scanOverflow := by
  unfold forFreshScan
  rw [forFreshScanFrom_trusted .exact hgroup ht (Nat.le_refl 0), foldl_after, Nat.zero_add,
    Nat.zero_add]
  rfl

theorem forFreshScanFrom_unknown : ∀ {groups : List ReclaimEstimate} (state : ReclaimState)
    {guaranteed ceiling : Nat}, (∀ g ∈ groups, g.OfGroup) → (∃ g ∈ groups, ¬g.Trusted) →
    guaranteed ≤ ceiling → ceiling + bounds groups < 2 ^ 64 →
    forFreshScanFrom state guaranteed ceiling groups = .ok unknown
  | [], _, _, _, _, hu, _, _ => by simp at hu
  | g :: gs, state, guaranteed, ceiling, hgroup, hu, hle, hfit => by
    rw [bounds_cons] at hfit
    by_cases hg : g.Trusted
    · have hbound := (hgroup g List.mem_cons_self).guaranteed_le
      rw [persistedBytes_of_trusted hg] at hbound hfit
      have hrest : ∃ e ∈ gs, ¬e.Trusted := by
        obtain ⟨e, he, hne⟩ := hu
        rcases List.mem_cons.mp he with rfl | he
        · exact absurd hg hne
        · exact ⟨e, he, hne⟩
      rw [forFreshScanFrom_cons hg, if_pos (by omega)]
      exact forFreshScanFrom_unknown _ (fun e he => hgroup e (List.mem_cons_of_mem _ he)) hrest
        (by omega) (by omega)
    · unfold Trusted at hg
      unfold forFreshScanFrom
      rw [not_not.mp hg]

/-- One unknown part makes the total unknown, where the others together fit the word. -/
theorem forFreshScan_unknown {groups : List ReclaimEstimate} (hgroup : ∀ g ∈ groups, g.OfGroup)
    (hu : ∃ g ∈ groups, ¬g.Trusted) (hfit : bounds groups < 2 ^ 64) :
    forFreshScan groups = .ok unknown :=
  forFreshScanFrom_unknown .exact hgroup hu (Nat.le_refl 0) (by omega)

theorem forFreshScanFrom_refused : ∀ {groups : List ReclaimEstimate} (state : ReclaimState)
    {guaranteed ceiling : Nat} (rest : List ReclaimEstimate), (∀ g ∈ groups, g.Trusted) →
    ceiling < 2 ^ 64 → 2 ^ 64 ≤ ceiling + bounds groups →
    forFreshScanFrom state guaranteed ceiling (groups ++ rest) = .error scanOverflow
  | [], _, _, ceiling, _, _, hlt, hle => by
    rw [show bounds [] = 0 from rfl] at hle
    omega
  | g :: gs, state, guaranteed, ceiling, rest, ht, hlt, hle => by
    have htg := ht g List.mem_cons_self
    rw [bounds_cons, persistedBytes_of_trusted htg] at hle
    rw [List.cons_append, forFreshScanFrom_cons htg]
    split
    · rename_i hfit
      exact forFreshScanFrom_refused _ rest (fun e he => ht e (List.mem_cons_of_mem _ he)) hfit.2
        (by omega)
    · rfl

/-- The established parts in front overflow the word before anything else is looked at. -/
theorem forFreshScan_refused {groups : List ReclaimEstimate} (rest : List ReclaimEstimate)
    (ht : ∀ g ∈ groups, g.Trusted) (hle : 2 ^ 64 ≤ bounds groups) :
    forFreshScan (groups ++ rest) = .error scanOverflow :=
  forFreshScanFrom_refused .exact rest ht (by decide) (by omega)

/-! ## The order of the parts -/

instance trusted_decidable (e : ReclaimEstimate) : Decidable e.Trusted :=
  inferInstanceAs (Decidable (e.state ≠ .unknown))

/-- No part is unknown, or the established ones together fit the word. -/
def Orderly (groups : List ReclaimEstimate) : Prop :=
  (∀ g ∈ groups, g.Trusted) ∨ bounds groups < 2 ^ 64

theorem worst_perm {groups groups' : List ReclaimEstimate} (h : groups.Perm groups') :
    worst groups = worst groups' := by
  unfold worst
  rw [h.any_eq]

theorem bounds_append (groups rest : List ReclaimEstimate) :
    bounds (groups ++ rest) = bounds groups + bounds rest := by
  unfold bounds
  rw [List.map_append, List.sum_append]

theorem bounds_untrusted {groups : List ReclaimEstimate} (h : ∀ g ∈ groups, ¬g.Trusted) :
    bounds groups = 0 := by
  unfold bounds
  rw [List.sum_eq_zero_iff]
  intro n hn
  obtain ⟨g, hg, rfl⟩ := List.mem_map.mp hn
  exact OfGroup.persisted_unknown (h g hg)

/-- An unknown part in front is all the fold looks at. -/
theorem forFreshScan_head {group : ReclaimEstimate} (hu : ¬group.Trusted)
    (groups : List ReclaimEstimate) : forFreshScan (group :: groups) = .ok unknown := by
  unfold Trusted at hu
  unfold forFreshScan forFreshScanFrom
  rw [not_not.mp hu]

theorem sameInEveryOrder_of_orderly {groups groups' : List ReclaimEstimate}
    (hgroup : ∀ g ∈ groups, g.OfGroup) (h : Orderly groups) (hperm : groups.Perm groups') :
    forFreshScan groups' = forFreshScan groups := by
  have hgroup' : ∀ g ∈ groups', g.OfGroup := fun g hg => hgroup g (hperm.mem_iff.mpr hg)
  by_cases ht : ∀ g ∈ groups, g.Trusted
  · rw [forFreshScan_trusted hgroup ht,
      forFreshScan_trusted hgroup' fun g hg => ht g (hperm.mem_iff.mpr hg),
      bounds_perm hperm, worst_perm hperm, (hperm.map guaranteedBytes).sum_eq]
  · have hfit := h.resolve_left ht
    obtain ⟨g, hg, hu⟩ : ∃ g ∈ groups, ¬g.Trusted := by
      simpa using ht
    rw [forFreshScan_unknown hgroup ⟨g, hg, hu⟩ hfit,
      forFreshScan_unknown hgroup' ⟨g, hperm.mem_iff.mp hg, hu⟩ (bounds_perm hperm ▸ hfit)]

/-- **The fold answers the same in every order of the parts**, if and only if no part is unknown or
    the established ones together fit the word. -/
theorem same_in_every_order {groups : List ReclaimEstimate} (hgroup : ∀ g ∈ groups, g.OfGroup) :
    (∀ groups', groups.Perm groups' → forFreshScan groups' = forFreshScan groups) ↔
      Orderly groups := by
  constructor
  · intro hsame
    by_contra hnot
    obtain ⟨hu, hover⟩ := not_or.mp hnot
    -- the established parts in front overflow, an unknown one in front is all that is read
    let known := groups.filter fun g => decide g.Trusted
    let blind := groups.filter fun g => !decide g.Trusted
    have hparts : (known ++ blind).Perm groups := List.filter_append_perm _ _
    have hknown : ∀ g ∈ known, g.Trusted := fun g hg => by
      simpa using (List.mem_filter.mp hg).2
    have hblind : ∀ g ∈ blind, ¬g.Trusted := fun g hg => by
      simpa using (List.mem_filter.mp hg).2
    have hsum : bounds known = bounds groups := by
      rw [← bounds_perm hparts, bounds_append, bounds_untrusted hblind, Nat.add_zero]
    have hfirst := hsame _ hparts.symm
    rw [forFreshScan_refused blind hknown (by omega)] at hfirst
    cases hcase : blind with
    | nil =>
      apply hu
      intro g hg
      apply hknown
      simpa [hcase] using hparts.mem_iff.mpr hg
    | cons u rest =>
      have hsecond := hsame (blind ++ known) (hparts.symm.trans List.perm_append_comm)
      rw [hcase, List.cons_append, forFreshScan_head (hblind u (by simp [hcase])), ← hfirst]
        at hsecond
      cases hsecond
  · intro h groups' hperm
    exact sameInEveryOrder_of_orderly hgroup h hperm

end DedupCommando.ReclaimEstimate
