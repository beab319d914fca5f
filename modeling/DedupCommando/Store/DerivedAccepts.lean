import DedupCommando.Model.ReclaimFold
import DedupCommando.Store.PublicationExact

/-!
# When the derived builder publishes

* `GroupFigures.estimate` — the figure that a summary row is read back as.
* `derived_folds_iff` — over rows in rank order, the totals refuse by their sum alone.
* `Accepted`, `derived_isOk` — the manifests that `publish_results` accepts from the derived builder.
-/

set_option autoImplicit false

namespace DedupCommando

open Sql (Value)

/-! ## Rows read back -/

/-- The bytes of a ceiling. -/
def GroupFigures.bytes (x : GroupFigures) : Nat :=
  match x.ceiling with
  | .integer n => n.toNat
  | _ => 0

/-- What a summary row is read back as. -/
def GroupFigures.estimate (x : GroupFigures) : ReclaimEstimate :=
  if x.state = 0 then .unknown else if x.state = 1 then .exact x.bytes else .upperBound x.bytes

theorem GroupFigures.estimate_ofGroup (x : GroupFigures) : x.estimate.OfGroup := by
  unfold estimate
  split
  · exact .inl rfl
  · split
    · exact .inr ⟨_, .inl rfl⟩
    · exact .inr ⟨_, .inr rfl⟩

theorem GroupFigures.estimate_trusted {x : GroupFigures} : x.estimate.Trusted ↔ x.state ≠ 0 := by
  unfold estimate ReclaimEstimate.Trusted
  split
  · rename_i h; exact iff_of_false (fun hne => hne rfl) (fun hne => hne h)
  · rename_i h
    split <;> exact iff_of_true (by simp [ReclaimEstimate.exact, ReclaimEstimate.upperBound]) h

/-- A figure of integers, in one of the three states. -/
structure GroupFigures.Counted (x : GroupFigures) : Prop where
  ceiling : ∃ n, x.ceiling = .integer n
  state : x.state = 0 ∨ x.state = 1 ∨ x.state = 2

/-- The ceiling is not negative where it is stored. -/
def GroupFigures.Positive (x : GroupFigures) : Prop :=
  x.state ≠ 0 → ∀ n, x.ceiling = .integer n → 0 ≤ n

theorem GroupFigures.positive_iff {x : GroupFigures} {n : Int} (hn : x.ceiling = .integer n) :
    x.Positive ↔ x.state = 0 ∨ 0 ≤ n := by
  unfold Positive
  rw [hn]
  by_cases hs : x.state = 0
  · exact iff_of_true (fun h => absurd hs h) (.inl hs)
  · exact ⟨fun h => .inr (h hs n rfl), fun h _ m hm => by cases hm; exact h.resolve_left hs⟩

/-- A row is read back as its figure, or refused for its sign. -/
theorem GroupFigures.Counted.fromPersisted {x : GroupFigures} (h : x.Counted) :
    ∃ n, x.reclaim = .integer n ∧
      (x.Positive → ReclaimEstimate.fromPersisted n x.state = .ok x.estimate) ∧
      (¬x.Positive → ∃ e, ReclaimEstimate.fromPersisted n x.state = .error e) := by
  obtain ⟨n, hn⟩ := h.ceiling
  rw [positive_iff hn]
  unfold GroupFigures.reclaim GroupFigures.estimate GroupFigures.bytes
  rw [hn]
  rcases h.state with hs | hs | hs
  · rw [hs]
    exact ⟨0, rfl, fun _ => rfl, fun h => absurd (.inl rfl) h⟩
  · rw [hs]
    have hread : ReclaimEstimate.fromPersisted n 1 = if n < 0 then .error _ else
      .ok ⟨.exact, n.toNat, n.toNat⟩ := rfl
    exact ⟨n, rfl, fun h => hread.trans (if_neg (by omega)),
      fun h => ⟨_, hread.trans (if_pos (by omega))⟩⟩
  · rw [hs]
    have hread : ReclaimEstimate.fromPersisted n 2 = if n < 0 then .error _ else
      .ok ⟨.upperBound, 0, n.toNat⟩ := rfl
    exact ⟨n, rfl, fun h => hread.trans (if_neg (by omega)),
      fun h => ⟨_, hread.trans (if_pos (by omega))⟩⟩

theorem persistedEstimates_of {f : Nat → GroupFigures → GroupRow}
    (hf : ∀ i x, (f i x).reclaim = x.reclaim ∧ (f i x).reclaimState = .integer x.state)
    {l : List GroupFigures} (hl : ∀ x ∈ l, x.Counted) :
    ((∀ x ∈ l, x.Positive) →
      persistedEstimates (l.mapIdx f) = .ok (l.map GroupFigures.estimate)) ∧
    (¬(∀ x ∈ l, x.Positive) → ∃ e, persistedEstimates (l.mapIdx f) = .error e) := by
  induction l generalizing f with
  | nil => exact ⟨fun _ => rfl, fun h => absurd (by simp) h⟩
  | cons x l ih =>
    obtain ⟨n, hn, hpos, hneg⟩ := (hl x List.mem_cons_self).fromPersisted
    obtain ⟨hok, herr⟩ := ih (f := fun i => f (i + 1)) (fun i y => hf (i + 1) y)
      fun y hy => hl y (List.mem_cons_of_mem x hy)
    rw [List.mapIdx_cons, List.forall_mem_cons]
    unfold persistedEstimates
    rw [(hf 0 x).1, (hf 0 x).2, hn]
    refine ⟨fun ⟨hx, hrest⟩ => ?_, fun hnot => ?_⟩
    · simp only [getInteger, hpos hx, hok hrest, List.map_cons]
    · by_cases hx : x.Positive
      · obtain ⟨e, he⟩ := herr fun hrest => hnot ⟨hx, hrest⟩
        exact ⟨e, by simp only [getInteger, hpos hx, he]⟩
      · obtain ⟨e, he⟩ := hneg hx
        exact ⟨e, by simp only [getInteger, he]⟩

/-! ## The totals -/

/-- The bytes of the ceilings that are stored. -/
def knownBytes (rows : List GroupFigures) : Nat :=
  ((rows.filter fun x => decide (x.state ≠ 0)).map GroupFigures.bytes).sum

theorem bounds_estimate (rows : List GroupFigures) :
    ReclaimEstimate.bounds (rows.map GroupFigures.estimate) = knownBytes rows := by
  induction rows with
  | nil => rfl
  | cons x rows ih =>
    rw [List.map_cons, ReclaimEstimate.bounds_cons, ih]
    unfold knownBytes
    rw [List.filter_cons]
    by_cases hs : x.state = 0
    · rw [if_neg (by simp [hs]),
        ReclaimEstimate.OfGroup.persisted_unknown (fun h => GroupFigures.estimate_trusted.1 h hs),
        Nat.zero_add]
    · rw [if_pos (by simp [hs]), List.map_cons, List.sum_cons]
      congr 1
      unfold GroupFigures.estimate
      rw [if_neg hs]
      split <;> rfl

/-- The totals that a manifest's figures allow. -/
def Totals (rows : List GroupFigures) : Prop :=
  ((∀ x ∈ rows, x.state ≠ 0) ∧ knownBytes rows ≤ i64Max) ∨
    (∃ x ∈ rows, x.state = 0) ∧ knownBytes rows < 2 ^ 64

theorem integer_key_le {a b : Int} :
    (Value.integer a).key ≤ (Value.integer b).key ↔ a ≤ b := by
  simp only [Value.key, Prod.Lex.toLex_le_toLex, lt_irrefl, true_and, false_or, le_refl, and_true,
    Int.cast_lt, Int.cast_inj, ← le_iff_lt_or_eq]

/-- Behind a row that is not known, in rank order, nothing is promised. -/
theorem bytes_behind {u x : GroupFigures} (hu : u.state = 0) (hx : x.Counted)
    (hsorted : u.order ≤ x.order) (hs : x.state ≠ 0) : x.bytes = 0 := by
  obtain ⟨n, hn⟩ := hx.ceiling
  have hle : n ≤ 0 := by
    unfold GroupFigures.order GroupFigures.guaranteed GroupFigures.reclaim at hsorted
    rw [hu, hn, if_neg hs, if_pos rfl, if_neg (by decide), Prod.Lex.toLex_le_toLex] at hsorted
    rcases hx.state with h | h | h
    · exact absurd h hs
    · rw [if_pos h] at hsorted
      rcases hsorted with hlt | ⟨heq, -⟩
      · exact integer_key_le.1 (OrderDual.toDual_lt_toDual.1 hlt).le
      · exact integer_key_le.1 (OrderDual.toDual_inj.1 heq).ge
    · rw [if_neg (by rw [h]; decide)] at hsorted
      rcases hsorted with hlt | ⟨-, hle⟩
      · exact absurd hlt (lt_irrefl _)
      · rw [Prod.Lex.toLex_le_toLex] at hle
        rcases hle with hlt | ⟨heq, -⟩
        · exact integer_key_le.1 (OrderDual.toDual_lt_toDual.1 hlt).le
        · exact integer_key_le.1 (OrderDual.toDual_inj.1 heq).ge
  unfold GroupFigures.bytes
  rw [hn]
  exact Int.toNat_of_nonpos hle

theorem knownBytes_append (rows rest : List GroupFigures) :
    knownBytes (rows ++ rest) = knownBytes rows + knownBytes rest := by
  simp [knownBytes]

/-- **The totals refuse by their sum alone**: rows in rank order have nothing behind the first one
    that is not known. -/
theorem derived_folds_iff {rows : List GroupFigures}
    (hsorted : rows.Pairwise fun x y => x.order ≤ y.order) (hcounted : ∀ x ∈ rows, x.Counted) :
    (∃ total, ReclaimEstimate.forFreshScan (rows.map GroupFigures.estimate) = .ok total) ↔
      Totals rows := by
  have hgroup : ∀ e ∈ rows.map GroupFigures.estimate, e.OfGroup :=
    List.forall_mem_map.2 fun x _ => x.estimate_ofGroup
  have htrusted : ∀ l : List GroupFigures, (∀ x ∈ l, x.state ≠ 0) →
      ∀ e ∈ l.map GroupFigures.estimate, e.Trusted :=
    fun l h => List.forall_mem_map.2 fun x hx => GroupFigures.estimate_trusted.2 (h x hx)
  unfold Totals
  by_cases hall : ∀ x ∈ rows, x.state ≠ 0
  · rw [ReclaimEstimate.forFreshScan_trusted hgroup (htrusted rows hall), bounds_estimate]
    have hnone : ¬∃ x ∈ rows, x.state = 0 := by simpa using hall
    by_cases hfit : knownBytes rows ≤ i64Max
    · exact iff_of_true ⟨_, if_pos hfit⟩ (.inl ⟨hall, hfit⟩)
    · refine iff_of_false ?_ (not_or.2 ⟨fun h => hfit h.2, fun h => hnone h.1⟩)
      rintro ⟨total, h⟩
      rw [if_neg hfit] at h
      cases h
  · have hsome : ∃ x ∈ rows, x.state = 0 := by simpa using hall
    by_cases hfit : knownBytes rows < 2 ^ 64
    · obtain ⟨u, hu, hzero⟩ := hsome
      refine iff_of_true ⟨_, ReclaimEstimate.forFreshScan_unknown hgroup ⟨_,
        List.mem_map_of_mem hu, fun h => GroupFigures.estimate_trusted.1 h hzero⟩ ?_⟩
        (.inr ⟨⟨u, hu, hzero⟩, hfit⟩)
      rw [bounds_estimate]
      exact hfit
    · refine iff_of_false ?_ (not_or.2 ⟨fun h => hall h.1, fun h => hfit h.2⟩)
      -- the rows in front of the first unknown one are all that is promised
      obtain ⟨front, u, rest, hrows, hfront, hu⟩ : ∃ front u rest, rows = front ++ u :: rest ∧
          (∀ x ∈ front, x.state ≠ 0) ∧ u.state = 0 := by
        have hunknown : (rows.find? fun x => decide (x.state = 0)).isSome :=
          List.find?_isSome.2 (by simpa using hsome)
        obtain ⟨u, hfind⟩ := Option.isSome_iff_exists.1 hunknown
        obtain ⟨hu, front, rest, hrows, hfront⟩ := List.find?_eq_some_iff_append.1 hfind
        exact ⟨front, u, rest, hrows, fun x hx => by simpa using hfront x hx, by simpa using hu⟩
      have hrest : knownBytes (u :: rest) = 0 := by
        unfold knownBytes
        rw [List.sum_eq_zero_iff, List.forall_mem_map]
        intro x hx
        obtain ⟨hx, hs⟩ := List.mem_filter.1 hx
        have hs : x.state ≠ 0 := by simpa using hs
        have hx : x ∈ rest := (List.mem_cons.1 hx).resolve_left fun h => hs (h ▸ hu)
        rw [hrows] at hsorted hcounted
        exact bytes_behind hu (hcounted x (by simp [hx]))
          ((List.pairwise_cons.1 (List.pairwise_append.1 hsorted).2.1).1 x hx) hs
      rintro ⟨total, h⟩
      rw [hrows, knownBytes_append, hrest, Nat.add_zero] at hfit
      rw [hrows, List.map_append, ReclaimEstimate.forFreshScan_refused _ (htrusted front hfront)
        (by rw [bounds_estimate]; omega)] at h
      cases h

/-! ## The derived publication -/

/-- What `publish_results` asks of the manifest and the rows beside it to publish what it derives:
    a scan, an authority with room, allocations that agree on their links, ceilings that fit and
    are not negative, and totals that fit. -/
structure Accepted (hasScan : Bool) (t : ScanTables) : Prop where
  scan : hasScan = true
  authority : ∀ mode generation, t.membership = some (mode, generation) →
    ∃ n, generation = .integer n ∧ 0 < n ∧ n + 1 < 2 ^ 63
  objects : ∀ d ∈ digestGroups t.file, ∀ o ∈ objectsOf d.2,
    untrustworthy (ObjectRow.of o) (figuresOf d.2) = false
  positive : ∀ x ∈ groupRows (groupObjects t.file), x.Positive
  totals : Totals (groupRows (groupObjects t.file))

theorem nextPublication_isOk {scanId : Int} {membership : Option (Value × Value)} :
    (∃ generation, nextPublication scanId membership = .ok generation) ↔
      ∀ mode generation, membership = some (mode, generation) →
        ∃ n, generation = .integer n ∧ 0 < n ∧ n + 1 < 2 ^ 63 := by
  unfold nextPublication
  rcases membership with _ | ⟨mode, previous⟩
  · exact iff_of_true ⟨1, rfl⟩ nofun
  · have hcell : (∀ m g, some (mode, previous) = some (m, g) →
        ∃ n, g = .integer n ∧ 0 < n ∧ n + 1 < 2 ^ 63) ↔
          ∃ n, previous = .integer n ∧ 0 < n ∧ n + 1 < 2 ^ 63 :=
      ⟨fun h => h mode previous rfl, fun h _ _ heq => by cases heq; exact h⟩
    rw [hcell]
    cases previous with
    | integer p =>
      simp only [Value.integer.injEq, exists_eq_left']
      by_cases hp : 0 < p
      · by_cases hroom : p + 1 < 2 ^ 63
        · exact iff_of_true ⟨_, by rw [if_pos hp, if_pos hroom]⟩ ⟨hp, hroom⟩
        · refine iff_of_false ?_ fun h => hroom h.2
          rw [if_pos hp, if_neg hroom]
          exact fun ⟨_, h⟩ => nomatch h
      · refine iff_of_false ?_ fun h => hp h.1
        rw [if_neg hp]
        exact fun ⟨_, h⟩ => nomatch h
    | null | real _ | text _ | blob _ =>
      exact iff_of_false (fun ⟨_, h⟩ => nomatch h) fun ⟨_, h, _⟩ => nomatch h

theorem totals_perm {rows rows' : List GroupFigures} (h : rows.Perm rows') :
    Totals rows ↔ Totals rows' := by
  have hbytes : knownBytes rows = knownBytes rows' := ((h.filter _).map _).sum_eq
  unfold Totals
  simp only [hbytes, h.mem_iff]

theorem derived_counted {files : List FileRow}
    (hrefuse : refuseUntrustworthyGroupObjects files = .ok ()) {x : GroupFigures}
    (hx : x ∈ derivedFigures files) : x.Counted := by
  obtain ⟨d, hd, rfl⟩ := mem_derivedFigures.1 hx
  obtain ⟨f, hf⟩ := List.exists_mem_of_ne_nil _ (mem_digestGroups hd).1
  obtain ⟨o, ho, -⟩ := exists_objectsOf hf
  have htrust := refuseUntrustworthyGroupObjects_ok.1 hrefuse d hd o ho
  simp only [untrustworthy, Bool.or_eq_false_iff, decide_eq_false_iff_not, not_not] at htrust
  refine ⟨typeof_integer.1 htrust.2, ?_⟩
  show groupState _ = 0 ∨ groupState _ = 1 ∨ groupState _ = 2
  unfold groupState
  split
  · exact .inl rfl
  · split
    · exact .inr (.inr rfl)
    · exact .inr (.inl rfl)

/-- **The derived builder publishes exactly the manifests that are accepted.** -/
theorem derived_isOk (scanId : Int) (hasScan : Bool) (t : ScanTables) :
    (publishResults scanId hasScan .derived t).1.isOk = true ↔ Accepted hasScan t := by
  have hperm := Sql.orderBy_perm GroupFigures.order (groupRows (groupObjects t.file))
  unfold publishResults Tx.atomically publishBody
  cases hnext : nextPublication scanId t.membership with
  | error e =>
    refine iff_of_false Bool.false_ne_true fun h => ?_
    obtain ⟨g, hg⟩ := nextPublication_isOk.2 h.authority
    rw [hnext] at hg
    cases hg
  | ok generation =>
  have hauthority := nextPublication_isOk.1 ⟨generation, hnext⟩
  simp only [insertResults, insertDerived, ScanTables.withoutResults]
  cases hrefuse : refuseUntrustworthyGroupObjects t.file with
  | error e =>
    refine iff_of_false Bool.false_ne_true fun h => ?_
    have := refuseUntrustworthyGroupObjects_ok.2 h.objects
    rw [hrefuse] at this
    cases this
  | ok _ =>
  have hcounted : ∀ x ∈ derivedFigures t.file, x.Counted := fun x hx => derived_counted hrefuse hx
  obtain ⟨hok, herr⟩ := persistedEstimates_of (f := GroupFigures.row) (fun _ _ => ⟨rfl, rfl⟩) hcounted
  have hfolds := derived_folds_iff (Sql.orderBy_sorted _ _) hcounted
  rw [totals_perm hperm] at hfolds
  simp only [recordScanReclaim, List.nil_append]
  unfold derivedFigures at hok herr
  by_cases hpos : ∀ x ∈ derivedFigures t.file, x.Positive
  · rw [hok hpos]
    have hrows : ∀ x ∈ groupRows (groupObjects t.file), x.Positive :=
      fun x hx => hpos x (Sql.mem_orderBy.2 hx)
    simp only
    cases hfold : ReclaimEstimate.forFreshScan ((Sql.orderBy GroupFigures.order
        (groupRows (groupObjects t.file))).map GroupFigures.estimate) with
    | error e =>
      refine iff_of_false Bool.false_ne_true fun h => ?_
      obtain ⟨total, htotal⟩ := hfolds.2 h.totals
      rw [hfold] at htotal
      cases htotal
    | ok total =>
      cases hasScan with
      | false => exact iff_of_false Bool.false_ne_true fun h => Bool.false_ne_true h.scan
      | true => exact iff_of_true rfl ⟨rfl, hauthority, refuseUntrustworthyGroupObjects_ok.1 hrefuse,
          hrows, hfolds.1 ⟨total, hfold⟩⟩
  · obtain ⟨e, he⟩ := herr hpos
    rw [he]
    exact iff_of_false Bool.false_ne_true fun h =>
      hpos fun x hx => h.positive x (Sql.mem_orderBy.1 hx)

end DedupCommando
