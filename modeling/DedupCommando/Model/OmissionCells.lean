import DedupCommando.Model.Omission

/-!
# The cells behind a snapshot

A snapshot keeps the cells of the ledger in maps by directory and by root.

* `tally` — the events of the cells with a property, summed without a word size.
* `RowsHold` — what the maps of a built snapshot say of the cells they were built from.
* `rootKeys_apart` — no accepted root lies over another.
* `Built`, `build_built` — what building a snapshot establishes.
* `Built.owningRoot`, `Built.cell_root` — a place under a root belongs to that root alone.
-/

set_option autoImplicit false

namespace DedupCommando

/-! ## Folding events -/

/-- The events of one reason in a list of them. -/
def eventsOf (events : List (OmissionReason × EventCount)) (r : OmissionReason) : Nat :=
  (events.map fun e => if e.1 = r then e.2.get else 0).sum

namespace OmissionSummary

@[simp]
theorem count_default (r : OmissionReason) : default.count r = 0 := rfl

theorem count_lt (s : OmissionSummary) (r : OmissionReason) : s.count r < 2 ^ 64 := by
  unfold count
  cases s.perReason.get? r with
  | none => decide
  | some c => exact c.fits

theorem eventsOf_perReason (s : OmissionSummary) (r : OmissionReason) :
    eventsOf s.perReason.entries r = s.count r := s.perReason.sum_single r EventCount.get

theorem count_insert (s : OmissionSummary) (r r' : OmissionReason) (c : EventCount) :
    count ⟨s.perReason.insert r c⟩ r' = if r' = r then c.get else s.count r' := by
  unfold count
  rw [OrdMap.get?_insert]
  split <;> rfl

theorem add_ok {s s' : OmissionSummary} {r : OmissionReason} {c : EventCount}
    (h : s.add r c = .ok s') (r' : OmissionReason) :
    s'.count r' = s.count r' + if r' = r then c.get else 0 := by
  unfold add at h
  split at h
  · rename_i existing hget
    split at h
    · rename_i total htotal
      cases h
      rw [count_insert, EventCount.checkedAdd_ok htotal]
      split
      · rename_i hr
        subst hr
        unfold count
        rw [hget]; rfl
      · rfl
    · cases h
  · rename_i hget
    cases h
    rw [count_insert]
    split
    · rename_i hr
      subst hr
      unfold count
      rw [hget]; simp
    · rfl

theorem add_error {s : OmissionSummary} {r : OmissionReason} {c : EventCount} {e : String}
    (h : s.add r c = .error e) : 2 ^ 64 ≤ s.count r + c.get := by
  unfold add at h
  split at h
  · rename_i existing hget
    split at h
    · cases h
    · rename_i hadd
      unfold count
      rw [hget]
      exact EventCount.checkedAdd_error hadd
  · cases h

theorem addAll_ok {s' : OmissionSummary} :
    ∀ {events : List (OmissionReason × EventCount)} {s : OmissionSummary},
      s.addAll events = .ok s' → ∀ r, s'.count r = s.count r + eventsOf events r
  | [], s, h, r => by cases h; rfl
  | (r', c) :: rest, s, h, r => by
    unfold addAll at h
    split at h
    · rename_i s₁ hadd
      rw [addAll_ok h r, add_ok hadd r]
      simp only [eventsOf, List.map_cons, List.sum_cons, eq_comm (a := r) (b := r'), Nat.add_assoc]
    · cases h

theorem addAll_error {e : String} :
    ∀ {events : List (OmissionReason × EventCount)} {s : OmissionSummary},
      s.addAll events = .error e → ∃ r, 2 ^ 64 ≤ s.count r + eventsOf events r
  | [], s, h => by cases h
  | (r', c) :: rest, s, h => by
    unfold addAll at h
    split at h
    · rename_i s₁ hadd
      obtain ⟨r, hr⟩ := addAll_error h
      refine ⟨r, ?_⟩
      rw [add_ok hadd r] at hr
      simpa only [eventsOf, List.map_cons, List.sum_cons, eq_comm (a := r) (b := r'),
        Nat.add_assoc] using hr
    · rename_i hadd
      refine ⟨r', ?_⟩
      have := add_error hadd
      simp only [eventsOf, List.map_cons, List.sum_cons, if_pos]
      omega

theorem isEmpty_iff {s : OmissionSummary} : s.isEmpty = true ↔ ∀ r, s.count r = 0 := by
  unfold isEmpty count
  rw [List.isEmpty_iff]
  constructor
  · intro h r
    have : s.perReason.get? r = none := by
      rw [OrdMap.get?_eq_none, OrdMap.keys, h]; exact List.not_mem_nil
    rw [this]; rfl
  · intro h
    rw [List.eq_nil_iff_forall_not_mem]
    rintro ⟨r, c⟩ hm
    have := h r
    rw [OrdMap.mem_entries.1 hm] at this
    exact absurd this c.pos.ne'

end OmissionSummary

/-! ## Roots -/

theorem overlapWith_eq_none {outer : PathKey} :
    ∀ {keys : List PathKey}, overlapWith outer keys = none ↔
      ∀ inner ∈ keys, inner.isAtOrUnder outer = false ∧ outer.isAtOrUnder inner = false
  | [] => by simp [overlapWith]
  | inner :: rest => by
    unfold overlapWith
    rw [List.forall_mem_cons]
    split
    · rename_i h; simp [h]
    · split
      · rename_i h; simp [h]
      · rename_i h₁ h₂
        rw [overlapWith_eq_none]
        simp [h₁, h₂]

/-- **Accepted roots lie apart**: none of them contains another. -/
theorem overlapping_eq_none :
    ∀ {keys : List PathKey}, overlapping keys = none ↔
      keys.Pairwise fun a b => b.isAtOrUnder a = false ∧ a.isAtOrUnder b = false
  | [] => by simp [overlapping]
  | outer :: rest => by
    unfold overlapping
    rw [Option.or_eq_none_iff, overlapWith_eq_none, overlapping_eq_none, List.pairwise_cons]

theorem keyRoots_ok :
    ∀ {roots : List Path} {keys : List PathKey}, keyRoots roots = .ok keys →
      roots.map PathKey.new = keys.map some
  | [], keys, h => by cases h; rfl
  | root :: rest, keys, h => by
    unfold keyRoots at h
    split at h
    · cases h
    · rename_i key hkey
      split at h
      · rename_i keys' hrest
        cases h
        rw [List.map_cons, List.map_cons, hkey, keyRoots_ok hrest]
      · cases h

theorem rootKeys_ok {roots : List Path} {keys : List PathKey} (h : rootKeys roots = .ok keys) :
    roots.map PathKey.new = keys.map some ∧
      keys.Pairwise fun a b => b.isAtOrUnder a = false ∧ a.isAtOrUnder b = false := by
  unfold rootKeys at h
  split at h
  · cases h
  · rename_i keys' hkeys
    split at h
    · cases h
    · rename_i hover
      cases h
      exact ⟨keyRoots_ok hkeys, overlapping_eq_none.1 hover⟩

/-- No accepted root lies over another, and none comes twice. -/
theorem rootKeys_apart {roots : List Path} {keys : List PathKey} (h : rootKeys roots = .ok keys) :
    (∀ a ∈ keys, ∀ b ∈ keys, b.isAtOrUnder a = true → a = b) ∧ keys.Nodup := by
  have hapart := (rootKeys_ok h).2
  constructor
  · intro a ha b hb hab
    by_contra hne
    have : Std.Symm fun x y : PathKey => y.isAtOrUnder x = false ∧ x.isAtOrUnder y = false :=
      ⟨fun _ _ h => h.symm⟩
    have hsep := hapart.forall ha hb hne
    rw [hab] at hsep
    exact absurd hsep.1 (by decide)
  · refine hapart.imp fun {a b} h hab => ?_
    subst hab
    rw [PathKey.isAtOrUnder_refl] at h
    exact absurd h.1 (by decide)

/-! ## Cells -/

/-- The events of the cells with property `P`. -/
def tally (cells : List OmissionCell) (P : OmissionCell → Bool) : Nat :=
  (cells.map fun c => if P c then c.count.get else 0).sum

theorem tally_append (cells cells' : List OmissionCell) (P : OmissionCell → Bool) :
    tally (cells ++ cells') P = tally cells P + tally cells' P := by
  simp [tally]

@[simp]
theorem tally_singleton (c : OmissionCell) (P : OmissionCell → Bool) :
    tally [c] P = if P c then c.count.get else 0 := by
  simp [tally]

theorem tally_pos {cells : List OmissionCell} {P : OmissionCell → Bool} :
    0 < tally cells P ↔ ∃ c ∈ cells, P c = true := by
  induction cells with
  | nil => simp [tally]
  | cons c cs ih =>
    have hcons : tally (c :: cs) P = (if P c then c.count.get else 0) + tally cs P := rfl
    rw [hcons]
    by_cases hc : P c = true
    · rw [if_pos hc]
      exact ⟨fun _ => ⟨c, List.mem_cons_self, hc⟩, fun _ => Nat.add_pos_left c.count.pos _⟩
    · rw [if_neg hc, Nat.zero_add, ih]
      simp [hc]

theorem tally_congr {cells : List OmissionCell} {P Q : OmissionCell → Bool}
    (h : ∀ c ∈ cells, P c = Q c) : tally cells P = tally cells Q := by
  unfold tally
  rw [List.map_congr_left fun c hc => by rw [h c hc]]

theorem tally_eq_zero {cells : List OmissionCell} {P : OmissionCell → Bool} :
    tally cells P = 0 ↔ ∀ c ∈ cells, P c = false := by
  rw [← not_iff_not, ← ne_eq, ← Nat.pos_iff_ne_zero, tally_pos]
  simp

/-- A tally over one of two properties of which no cell has both. -/
theorem tally_or {cells : List OmissionCell} {P Q : OmissionCell → Bool}
    (h : ∀ c ∈ cells, ¬(P c = true ∧ Q c = true)) :
    tally cells (fun c => P c || Q c) = tally cells P + tally cells Q := by
  induction cells with
  | nil => rfl
  | cons c cs ih =>
    have hcons : ∀ R : OmissionCell → Bool,
        tally (c :: cs) R = (if R c then c.count.get else 0) + tally cs R := fun _ => rfl
    rw [hcons, hcons, hcons, ih fun x hx => h x (List.mem_cons_of_mem _ hx)]
    have hc := h c List.mem_cons_self
    cases hP : P c <;> cases hQ : Q c <;> simp_all <;> omega

/-- The cells that the rows of the current generations record. -/
def currentCells (generations : OrdMap PathKey Int) (rows : List StoredOmission) :
    List OmissionCell :=
  rows.filterMap fun row => match decodeRow generations row with
    | .ok cell => cell
    | .error _ => none

theorem decodeRow_some {generations : OrdMap PathKey Int} {row : StoredOmission}
    {cell : OmissionCell} (h : decodeRow generations row = .ok (some cell)) :
    cell.directory.isAtOrUnder cell.root = true ∧ cell.root ∈ generations.keys := by
  unfold decodeRow at h
  split at h
  · cases h
  · rename_i root hroot
    split at h
    · cases h
    · rename_i hcurrent
      split at h
      · cases h
      · rename_i directory hdir
        split at h
        · cases h
        · rename_i hunder
          split at h
          · cases h
          · split at h
            · cases h
            · cases h
              refine ⟨by simpa using hunder, ?_⟩
              rw [← OrdMap.contains_iff, OrdMap.contains]
              cases hg : generations.get? root with
              | none => simp [hg] at hcurrent
              | some g => rfl

theorem currentCells_ok {generations : OrdMap PathKey Int} {rows : List StoredOmission}
    {cell : OmissionCell} (h : cell ∈ currentCells generations rows) :
    cell.directory.isAtOrUnder cell.root = true ∧ cell.root ∈ generations.keys := by
  unfold currentCells at h
  obtain ⟨row, -, hrow⟩ := List.mem_filterMap.1 h
  split at hrow
  · rename_i c hc
    exact decodeRow_some (hrow ▸ hc)
  · cases hrow

/-! ## The maps of a snapshot -/

/-- What the maps of a snapshot say of its cells. -/
structure RowsHold (cells : List OmissionCell) (rows : OrdMap Bytes (PathKey × OmissionSummary))
    (sentinels : OrdMap PathKey EventCount) : Prop where
  sum : ∀ (P : Bytes → Bool) (r : OmissionReason),
    (rows.entries.map fun e => if P e.1 then e.2.2.count r else 0).sum =
      tally cells fun c => P c.directory.asStr && decide (c.reason = r)
  tag : ∀ e ∈ rows.entries, ∃ c ∈ cells, c.directory.asStr = e.1 ∧ c.root = e.2.1
  filled : ∀ e ∈ rows.entries, ∃ r, 0 < e.2.2.count r
  sentinel : ∀ root, (sentinels.get? root).elim 0 EventCount.get =
    tally cells fun c =>
      decide (c.reason = .walkError ∧ c.directory = c.root) && decide (c.root = root)

theorem RowsHold.nil : RowsHold [] .empty .empty where
  sum := fun _ _ => rfl
  tag := fun _ h => absurd h List.not_mem_nil
  filled := fun _ h => absurd h List.not_mem_nil
  sentinel := fun _ => rfl

theorem addSentinel_ok {cells : List OmissionCell} {sentinels sentinels' : OrdMap PathKey EventCount}
    {cell : OmissionCell} (h : addSentinel sentinels cell = .ok sentinels')
    (hold : ∀ root, (sentinels.get? root).elim 0 EventCount.get =
      tally cells fun c =>
        decide (c.reason = .walkError ∧ c.directory = c.root) && decide (c.root = root))
    (root : PathKey) :
    (sentinels'.get? root).elim 0 EventCount.get =
      tally (cells ++ [cell]) fun c =>
        decide (c.reason = .walkError ∧ c.directory = c.root) && decide (c.root = root) := by
  rw [tally_append, ← hold root]
  unfold addSentinel at h
  split at h
  · rename_i hcell
    have hone : tally [cell] (fun c =>
        decide (c.reason = .walkError ∧ c.directory = c.root) && decide (c.root = root)) =
          if root = cell.root then cell.count.get else 0 := by
      rw [tally_singleton]
      simp only [hcell, and_self, decide_true, Bool.true_and, decide_eq_true_eq,
        eq_comm (a := root)]
    rw [hone]
    split at h
    · rename_i hget
      cases h
      rw [OrdMap.get?_insert]
      split
      · rename_i hr; subst hr; simp [hget]
      · simp
    · rename_i existing hget
      split at h
      · rename_i total htotal
        cases h
        rw [OrdMap.get?_insert]
        split
        · rename_i hr; subst hr
          simp [hget, EventCount.checkedAdd_ok htotal]
        · simp
      · cases h
  · rename_i hcell
    cases h
    have hone : tally [cell] (fun c =>
        decide (c.reason = .walkError ∧ c.directory = c.root) && decide (c.root = root)) = 0 := by
      rw [tally_singleton]
      simp only [hcell, decide_false, Bool.false_and, Bool.false_eq_true, if_false]
    rw [hone, Nat.add_zero]

/-- One more cell keeps what the maps say. -/
theorem RowsHold.add {cells : List OmissionCell}
    {rows rows' : OrdMap Bytes (PathKey × OmissionSummary)}
    {sentinels sentinels' : OrdMap PathKey EventCount} {cell : OmissionCell}
    (hold : RowsHold cells rows sentinels) (hs : addSentinel sentinels cell = .ok sentinels')
    (hr : addCell rows cell = .ok rows') : RowsHold (cells ++ [cell]) rows' sentinels' := by
  unfold addCell at hr
  simp only at hr
  generalize hslot : (rows.get? cell.directory.asStr).getD (cell.root, .default) = slot at hr
  split at hr
  case h_2 => cases hr
  rename_i summary hadd
  cases hr
  have hmem : ∀ e ∈ (rows.insert cell.directory.asStr (slot.1, summary)).entries,
      e = (cell.directory.asStr, slot.1, summary) ∨ e ∈ rows.entries := by
    rintro ⟨k, v⟩ he
    have hget := OrdMap.mem_entries.1 he
    rw [OrdMap.get?_insert] at hget
    split at hget
    · rename_i hk; left; cases hget; rw [hk]
    · right; exact OrdMap.mem_entries.2 hget
  refine ⟨fun P r => ?_, fun e he => ?_, fun e he => ?_, addSentinel_ok hs hold.sentinel⟩
  · have hsum := rows.sum_insert cell.directory.asStr (slot.1, summary)
      fun e => if P e.1 then e.2.2.count r else 0
    have hold' : ((rows.get? cell.directory.asStr).elim 0
        fun w => if P cell.directory.asStr then w.2.count r else 0) =
          if P cell.directory.asStr then slot.2.count r else 0 := by
      rw [← hslot]
      cases rows.get? cell.directory.asStr <;> simp
    rw [hold', hold.sum P r] at hsum
    rw [tally_append]
    have hone : tally [cell] (fun c => P c.directory.asStr && decide (c.reason = r)) =
        if P cell.directory.asStr then (if r = cell.reason then cell.count.get else 0) else 0 := by
      rw [tally_singleton]
      cases P cell.directory.asStr <;> simp only [Bool.true_and, Bool.false_and,
        Bool.false_eq_true, if_false, if_true, decide_eq_true_eq, eq_comm (a := r)]
    rw [hone]
    have hcount := OmissionSummary.add_ok hadd r
    cases hP : P cell.directory.asStr
    · simp only [hP, Bool.false_eq_true, if_false] at hsum ⊢
      omega
    · simp only [hP, if_true] at hsum ⊢
      omega
  · rcases hmem e he with rfl | he
    · cases hget : rows.get? cell.directory.asStr with
      | none =>
        rw [hget] at hslot
        exact ⟨cell, List.mem_append_right _ List.mem_cons_self, rfl, congrArg Prod.fst hslot⟩
      | some stored =>
        rw [hget] at hslot
        obtain ⟨c, hc, hd, hroot⟩ := hold.tag _ (OrdMap.mem_entries.2 hget)
        have hslot : stored = slot := hslot
        exact ⟨c, List.mem_append_left _ hc, hd, hslot ▸ hroot⟩
    · obtain ⟨c, hc, h⟩ := hold.tag e he
      exact ⟨c, List.mem_append_left _ hc, h⟩
  · rcases hmem e he with rfl | he
    · refine ⟨cell.reason, ?_⟩
      have hcount := OmissionSummary.add_ok hadd cell.reason
      have := cell.count.pos
      rw [if_pos rfl] at hcount
      simp only
      omega
    · exact hold.filled e he

theorem readRows_hold {generations : OrdMap PathKey Int} :
    ∀ {stored : List StoredOmission} {cells : List OmissionCell}
      {rows rows' : OrdMap Bytes (PathKey × OmissionSummary)}
      {sentinels sentinels' : OrdMap PathKey EventCount},
      RowsHold cells rows sentinels →
      readRows generations stored rows sentinels = .ok (rows', sentinels') →
      RowsHold (cells ++ currentCells generations stored) rows' sentinels'
  | [], cells, rows, rows', sentinels, sentinels', hold, h => by
    cases h
    simpa [currentCells] using hold
  | row :: rest, cells, rows, rows', sentinels, sentinels', hold, h => by
    unfold readRows at h
    unfold currentCells
    split at h
    · cases h
    · rename_i hrow
      rw [List.filterMap_cons, hrow]
      exact readRows_hold hold h
    · rename_i cell hrow
      split at h
      · cases h
      · rename_i sentinels₁ hs
        split at h
        · cases h
        · rename_i rows₁ hr
          have := readRows_hold (hold.add hs hr) h
          rw [List.filterMap_cons, hrow]
          simpa [currentCells] using this

/-- What building a snapshot establishes. -/
structure Built (snap : CompletenessSnapshot) (roots : List Path) (cells : List OmissionCell) :
    Prop where
  roots : ∃ keys : List PathKey, roots.map PathKey.new = keys.map some ∧ snap.configured.Perm keys
  apart : ∀ a ∈ snap.configured, ∀ b ∈ snap.configured, b.isAtOrUnder a = true → a = b
  nodup : snap.configured.Nodup
  under : ∀ c ∈ cells, c.directory.isAtOrUnder c.root = true ∧ c.root ∈ snap.registered.keys
  agrees : snap.agrees = true → ∀ k, k ∈ snap.registered.keys ↔ k ∈ snap.configured
  rows : RowsHold cells snap.rows snap.sentinels

theorem build_built {configuredRoots : List Path} {registered : List (Bytes × Int)}
    {rows : List StoredOmission} {snap : CompletenessSnapshot}
    (h : CompletenessSnapshot.build configuredRoots registered rows = .ok (.bounded snap)) :
    Built snap configuredRoots (currentCells snap.registered rows) := by
  unfold CompletenessSnapshot.build at h
  split at h
  · cases h
  split at h
  · cases h
  rename_i hne keys hkeys
  simp only at h
  split at h
  · cases h
  rename_i generations hgen
  split at h
  · cases h
  rename_i summaries sentinels hrows
  cases h
  obtain ⟨hroots, -⟩ := rootKeys_ok hkeys
  obtain ⟨happ, hnodup⟩ := rootKeys_apart hkeys
  have hperm : (keys.insertionSort (· ≤ ·)).Perm keys := List.perm_insertionSort _ _
  refine ⟨⟨keys, hroots, hperm⟩, fun a ha b hb => happ a (hperm.mem_iff.1 ha) b (hperm.mem_iff.1 hb),
    hperm.nodup_iff.2 hnodup, fun c hc => currentCells_ok hc, fun hagrees k => ?_, ?_⟩
  · simp only [Bool.and_eq_true, decide_eq_true_eq, List.all_eq_true] at hagrees
    obtain ⟨hlen, hall⟩ := hagrees
    have hsub : (keys.insertionSort (· ≤ ·)) ⊆ generations.keys :=
      fun x hx => OrdMap.contains_iff.1 (hall x hx)
    have hp : (keys.insertionSort (· ≤ ·)).Perm generations.keys :=
      (List.subperm_of_subset (hperm.nodup_iff.2 hnodup) hsub).perm_of_length_le
        (by rw [OrdMap.keys, List.length_map, hlen])
    exact hp.mem_iff.symm
  · have := readRows_hold RowsHold.nil hrows
    simpa using this

/-! ## Owning roots -/

theorem namesOf_eq_some :
    ∀ {rest : List Component} {names : List Bytes}, PathKey.namesOf rest = some names →
      rest.map Component.name? = names.map some
  | [], names, h => by cases h; rfl
  | .normal n :: rest, names, h => by
    simp only [PathKey.namesOf, Option.map_eq_some_iff] at h
    obtain ⟨l, hl, rfl⟩ := h
    rw [List.map_cons, namesOf_eq_some hl, List.map_cons]
    rfl
  | .rootDir :: rest, names, h => by cases h
  | .curDir :: rest, names, h => by cases h
  | .parentDir :: rest, names, h => by cases h

theorem new_eq_some {path : Path} {key : PathKey} (h : PathKey.new path = some key) :
    ∃ rest, path = .rootDir :: rest ∧ PathKey.namesOf rest = some key.segments := by
  unfold PathKey.new at h
  split at h
  · rename_i rest
    obtain ⟨names, hnames, hseg⟩ := Option.bind_eq_some_iff.1 h
    exact ⟨rest, rfl, by rw [hnames, PathKey.ofSegments_eq_some.1 hseg]⟩
  · cases h

/-- For a path with a key, lying in a root is containment of keys. -/
theorem startsWithKey_iff {path : Path} {key root : PathKey} (h : PathKey.new path = some key) :
    CompletenessSnapshot.startsWithKey path root = true ↔ key.isAtOrUnder root = true := by
  obtain ⟨rest, rfl, hnames⟩ := new_eq_some h
  unfold CompletenessSnapshot.startsWithKey
  rw [PathKey.isAtOrUnder_iff]
  simp only [namesOf_eq_some hnames, List.isPrefixOf_iff_prefix]
  constructor
  · rintro ⟨t, ht⟩
    refine ⟨key.segments.drop root.segments.length, ?_⟩
    have htake : (root.segments.map some) = (key.segments.map some).take root.segments.length := by
      rw [← ht]; simp
    rw [← List.map_take] at htake
    have := List.map_injective_iff.2 (Option.some_injective _) htake
    rw [this, List.length_take]
    have hle : root.segments.length ≤ key.segments.length := by
      have := congrArg List.length ht; simp at this; omega
    rw [min_eq_left hle, List.take_append_drop]
  · rintro ⟨t, ht⟩
    exact ⟨t.map some, by rw [← List.map_append, ht]⟩

theorem owningRoot_eq_some {snap : CompletenessSnapshot} {path : Path} {key root : PathKey}
    (hkey : PathKey.new path = some key) (h : snap.owningRoot path = some root) :
    root ∈ snap.configured ∧ key.isAtOrUnder root = true :=
  ⟨List.mem_of_find?_eq_some h, (startsWithKey_iff hkey).1 (List.find?_some h)⟩

namespace Built

variable {snap : CompletenessSnapshot} {roots : List Path} {cells : List OmissionCell}

/-- A path under a root is owned by that root and no other. -/
theorem owningRoot (built : Built snap roots cells) {path : Path} {key root : PathKey}
    (hkey : PathKey.new path = some key) (hroot : root ∈ snap.configured)
    (hunder : key.isAtOrUnder root = true) : snap.owningRoot path = some root := by
  cases hown : snap.owningRoot path with
  | none =>
    have := List.find?_eq_none.1 hown root hroot
    exact absurd ((startsWithKey_iff hkey).2 hunder) this
  | some other =>
    obtain ⟨hmem, hother⟩ := owningRoot_eq_some hkey hown
    rcases PathKey.isAtOrUnder_total hother hunder with h | h
    · exact congrArg some (built.apart root hroot other hmem h).symm
    · exact congrArg some (built.apart other hmem root hroot h)

/-- Under agreeing registrations, what lies in a root is that root's own. -/
theorem cell_root (built : Built snap roots cells) (hagrees : snap.agrees = true)
    {root : PathKey} (hroot : root ∈ snap.configured) {c : OmissionCell} (hc : c ∈ cells)
    (hunder : c.directory.isAtOrUnder root = true) : c.root = root := by
  obtain ⟨hdir, hreg⟩ := built.under c hc
  have hmem := (built.agrees hagrees c.root).1 hreg
  rcases PathKey.isAtOrUnder_total hdir hunder with h | h
  · exact (built.apart root hroot c.root hmem h).symm
  · exact built.apart c.root hmem root hroot h

end Built

end DedupCommando
