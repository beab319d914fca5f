import DedupCommando.Model.PathKey

/-!
# The algebra of path keys

`Model.PathKey` works with the components a key has; here the constructor is the loop over the
raw bytes of a pathname, and the three ways containment is decided meet.

* `components` — `Path::components` of raw bytes, for a name in any bytes.
* `newKey` — the loop of `PathKey::new`; `newKey_eq` says it is `PathKey.ofText`.
* `newKey_eq_iff` — two accepted pathnames have one key exactly when their components are one.
* `fromStored_ok_iff` — what is accepted from the store is what the constructor makes.
* `isAtOrUnder_iff_startsWith` — containment is `Path::starts_with`.
* `keyAlgebra_iff` — **the laws of a key, for every pair of keys but the root against itself.**
-/

set_option autoImplicit false

namespace DedupCommando

/-! ## Components of raw bytes -/

/-- `std::path::Component` with a name in any bytes. -/
inductive Part where
  | rootDir
  | curDir
  | parentDir
  | normal (name : Bytes)
  deriving DecidableEq

/-- What stands between two separators. -/
def Part.ofSegment (s : Bytes) : Option Part :=
  if s = [] ∨ s = [46] then none else if s = [46, 46] then some .parentDir else some (.normal s)

/-- `Path::components`: repeated separators and `.` are dropped, a leading `.` is kept. -/
def components (raw : Bytes) : List Part :=
  let body := (raw.splitOn 47).filterMap Part.ofSegment
  if raw.head? = some 47 then .rootDir :: body
  else if (raw.splitOn 47).head? = some [46] then .curDir :: body
  else body

/-- `Path::starts_with`. -/
def startsWith (path base : Bytes) : Bool := (components base).isPrefixOf (components path)

namespace PathKey

/-- The loop of `PathKey::new` behind the root directory. -/
def pushAll : Bytes → List Part → Option Bytes
  | key, [] => some key
  | key, .normal name :: rest =>
    if isUtf8 name then pushAll (key ++ 47 :: name) rest else none
  | _, _ :: _ => none

/-- `PathKey::new` on the bytes of a path, as the stored string. -/
def newKey (raw : Bytes) : Option Bytes :=
  match components raw with
  | .rootDir :: rest => (pushAll [] rest).map fun key => if key = [] then [47] else key
  | _ => none

/-! ## The loop and the key -/

/-- The names of a run of normal components in UTF-8. -/
def plainNames : List Part → Option (List Bytes)
  | [] => some []
  | .normal name :: rest => if isUtf8 name then (plainNames rest).map (name :: ·) else none
  | _ :: _ => none

theorem pushAll_eq : ∀ (parts : List Part) (key : Bytes),
    pushAll key parts = (plainNames parts).map fun names => key ++ spell names
  | [], key => by simp [pushAll, plainNames]
  | .normal name :: rest, key => by
    unfold pushAll plainNames
    split
    · rw [pushAll_eq rest]
      cases plainNames rest <;> simp
    · rfl
  | .rootDir :: _, _ | .curDir :: _, _ | .parentDir :: _, _ => rfl

theorem plainNames_eq_some {parts : List Part} {names : List Bytes} :
    plainNames parts = some names ↔ parts = names.map .normal ∧ ∀ n ∈ names, isUtf8 n = true := by
  induction parts generalizing names with
  | nil =>
    cases names <;> simp [plainNames]
  | cons p parts ih =>
    cases p with
    | normal name =>
      unfold plainNames
      cases names with
      | nil => split <;> simp
      | cons n names =>
        by_cases hu : isUtf8 name = true
        · rw [if_pos hu]
          simp only [Option.map_eq_some_iff, List.cons.injEq, List.map_cons, Part.normal.injEq,
            List.forall_mem_cons]
          constructor
          · rintro ⟨l, hl, rfl, rfl⟩
            exact ⟨⟨rfl, (ih.1 hl).1⟩, hu, (ih.1 hl).2⟩
          · rintro ⟨⟨rfl, hp⟩, -, hns⟩
            exact ⟨names, ih.2 ⟨hp, hns⟩, rfl, rfl⟩
        · rw [if_neg hu]
          simp only [reduceCtorEq, List.map_cons, List.cons.injEq, Part.normal.injEq,
            List.forall_mem_cons, false_iff]
          rintro ⟨⟨rfl, -⟩, hn, -⟩
          exact hu hn
    | _ => cases names <;> simp [plainNames]

theorem ofSegment_normal {s n : Bytes} :
    Part.ofSegment s = some (.normal n) ↔ s = n ∧ s ≠ [] ∧ s ≠ [46] ∧ s ≠ [46, 46] := by
  unfold Part.ofSegment
  split
  · rename_i h
    constructor
    · intro h'; cases h'
    · rintro ⟨-, h₁, h₂, -⟩
      exact absurd h (not_or.2 ⟨h₁, h₂⟩)
  · rename_i h
    obtain ⟨h₁, h₂⟩ := not_or.1 h
    split
    · rename_i h₃
      simp [h₃]
    · rename_i h₃
      simp [h₁, h₂, h₃]

/-- The parts are names exactly when no segment steps up. -/
theorem filterMap_ofSegment {segments names : List Bytes} :
    segments.filterMap Part.ofSegment = names.map .normal ↔
      (segments.filter fun s => decide (s ≠ [] ∧ s ≠ [46])) = names ∧
        ∀ n ∈ names, n ≠ [46, 46] := by
  induction segments generalizing names with
  | nil =>
    cases names <;> simp
  | cons s segments ih =>
    by_cases hs : s = [] ∨ s = [46]
    · have hpart : Part.ofSegment s = none := if_pos hs
      have hdrop : decide (s ≠ [] ∧ s ≠ [46]) = false :=
        decide_eq_false fun h => hs.elim h.1 h.2
      simp only [List.filterMap_cons_none hpart, List.filter_cons, hdrop, Bool.false_eq_true,
        if_false, ih]
    · have hkeep : decide (s ≠ [] ∧ s ≠ [46]) = true := decide_eq_true (not_or.1 hs)
      simp only [List.filter_cons, hkeep, if_true]
      by_cases hup : s = [46, 46]
      · have hpart : Part.ofSegment s = some .parentDir := by simp [Part.ofSegment, hup]
        rw [List.filterMap_cons_some hpart]
        cases names with
        | nil => simp
        | cons n names =>
          simp only [List.map_cons, List.cons.injEq, reduceCtorEq, false_and, false_iff, not_and]
          rintro ⟨rfl, -⟩ h
          exact h s List.mem_cons_self hup
      · have hpart : Part.ofSegment s = some (.normal s) :=
          ofSegment_normal.2 ⟨rfl, (not_or.1 hs).1, (not_or.1 hs).2, hup⟩
        rw [List.filterMap_cons_some hpart]
        cases names with
        | nil => simp
        | cons n names =>
          simp only [List.map_cons, List.cons.injEq, Part.normal.injEq, List.forall_mem_cons, ih]
          constructor
          · rintro ⟨rfl, h, hn⟩
            exact ⟨⟨rfl, h⟩, hup, hn⟩
          · rintro ⟨⟨rfl, h⟩, -, hn⟩
            exact ⟨rfl, h, hn⟩

theorem slash_notMem_of_mem_splitOn {raw s : Bytes} (h : s ∈ raw.splitOn 47) : 47 ∉ s := by
  induction raw generalizing s with
  | nil =>
    rw [List.splitOn_nil, List.mem_singleton] at h
    exact h ▸ List.not_mem_nil
  | cons x raw ih =>
    rw [List.splitOn_cons_eq_if_modifyHead] at h
    by_cases hx : (x == 47) = true
    · rw [if_pos hx] at h
      rcases List.mem_cons.1 h with rfl | h
      · exact List.not_mem_nil
      · exact ih h
    · rw [if_neg hx] at h
      obtain ⟨first, rest, hsplit⟩ := List.exists_cons_of_ne_nil (List.splitOn_ne_nil 47 raw)
      rw [hsplit, List.modifyHead_cons] at h
      rcases List.mem_cons.1 h with rfl | h
      · rw [List.mem_cons, not_or]
        exact ⟨fun he => hx (beq_iff_eq.2 he.symm), ih (hsplit ▸ List.mem_cons_self)⟩
      · exact ih (hsplit ▸ List.mem_cons_of_mem _ h)

theorem rootDir_notMem (segments : List Bytes) : .rootDir ∉ segments.filterMap Part.ofSegment := by
  rw [List.mem_filterMap]
  rintro ⟨s, -, hs⟩
  unfold Part.ofSegment at hs
  split at hs
  · cases hs
  · split at hs <;> cases hs

theorem components_absolute {raw : Bytes} (h : raw.head? = some 47) :
    components raw = .rootDir :: (raw.splitOn 47).filterMap Part.ofSegment := if_pos h

theorem components_relative {raw : Bytes} (h : raw.head? ≠ some 47) :
    .rootDir ∉ components raw := by
  unfold components
  simp only [if_neg h]
  split
  · rw [List.mem_cons, not_or]
    exact ⟨Part.noConfusion, rootDir_notMem _⟩
  · exact rootDir_notMem _

/-- **A pathname has a key exactly when its components are the root directory and the key's
names.** -/
theorem ofText_iff_components {raw : Bytes} {k : PathKey} :
    ofText raw = some k ↔ components raw = .rootDir :: k.segments.map .normal := by
  unfold ofText
  by_cases hroot : raw.head? = some 47
  · rw [if_pos hroot, components_absolute hroot, ofSegments_eq_some, List.cons.injEq,
      filterMap_ofSegment]
    constructor
    · intro h
      refine ⟨rfl, h.symm, fun n hn => ?_⟩
      exact (isSegment_iff.1 (k.valid n hn)).1.2.2.1
    · rintro ⟨-, h, -⟩
      exact h.symm
  · rw [if_neg hroot]
    refine iff_of_false (fun h => nomatch h) fun h => components_relative hroot ?_
    exact h ▸ List.mem_cons_self

/-- Names between separators that are UTF-8 make a key. -/
theorem exists_key {raw : Bytes} {names : List Bytes}
    (h : components raw = .rootDir :: names.map .normal) (hutf : ∀ n ∈ names, isUtf8 n = true) :
    ∃ k : PathKey, k.segments = names := by
  have hroot : raw.head? = some 47 := by
    by_contra hr
    exact components_relative hr (h ▸ List.mem_cons_self)
  rw [components_absolute hroot, List.cons.injEq, filterMap_ofSegment] at h
  refine ⟨⟨names, fun n hn => isSegment_iff.2 ⟨?_, hutf n hn⟩⟩, rfl⟩
  have hn' := h.2.1 ▸ hn
  obtain ⟨hmem, hspoken⟩ := List.mem_filter.1 hn'
  have hspoken := of_decide_eq_true hspoken
  exact ⟨hspoken.1, hspoken.2, h.2.2 n hn, slash_notMem_of_mem_splitOn hmem⟩

theorem spell_eq_nil {ss : List Bytes} : spell ss = [] ↔ ss = [] := by
  cases ss <;> simp

theorem newKey_eq_some {raw s : Bytes} :
    newKey raw = some s ↔ ∃ k, ofText raw = some k ∧ k.asStr = s := by
  have hloop : ∀ (rest : List Part), ((pushAll [] rest).map fun key => if key = [] then [47] else key)
      = some s ↔ ∃ names, plainNames rest = some names ∧
        (if names = [] then [47] else spell names) = s := by
    intro rest
    rw [pushAll_eq]
    simp only [List.nil_append, Option.map_map, Option.map_eq_some_iff, Function.comp_apply,
      spell_eq_nil]
  constructor
  · intro h
    unfold newKey at h
    split at h
    · rename_i rest hc
      obtain ⟨names, hn, rfl⟩ := (hloop rest).1 h
      obtain ⟨rfl, hutf⟩ := plainNames_eq_some.1 hn
      obtain ⟨k, rfl⟩ := exists_key hc hutf
      exact ⟨k, ofText_iff_components.2 hc, rfl⟩
    · cases h
  · rintro ⟨k, hk, rfl⟩
    unfold newKey
    rw [ofText_iff_components.1 hk]
    refine (hloop _).2 ⟨k.segments, plainNames_eq_some.2 ⟨rfl, fun n hn => ?_⟩, rfl⟩
    exact (isSegment_iff.1 (k.valid n hn)).2

/-- **The loop over the components makes the key.** -/
theorem newKey_eq (raw : Bytes) : newKey raw = (ofText raw).map asStr := by
  refine Option.ext fun s => ?_
  rw [newKey_eq_some, Option.map_eq_some_iff]

/-! ## One key for one list of components -/

theorem newKey_congr {p q : Bytes} (h : components p = components q) : newKey p = newKey q := by
  unfold newKey
  rw [h]

/-- **Accepted pathnames have one key exactly when they have the same components.** -/
theorem newKey_eq_iff {p q s : Bytes} (h : newKey p = some s) :
    newKey q = some s ↔ components q = components p := by
  constructor
  · intro hq
    obtain ⟨k, hk, rfl⟩ := newKey_eq_some.1 h
    obtain ⟨l, hl, hs⟩ := newKey_eq_some.1 hq
    obtain rfl := asStr_injective hs
    rw [ofText_iff_components.1 hk, ofText_iff_components.1 hl]
  · intro hc
    rw [newKey_congr hc, h]

/-! ## Stored keys -/

/-- **The store gives back what the constructor can make, and nothing else.** -/
theorem fromStored_ok_iff {raw : Bytes} :
    (∃ k, fromStored raw = .ok k) ↔ ∃ p, newKey p = some raw := by
  constructor
  · rintro ⟨k, hk⟩
    exact ⟨raw, newKey_eq_some.2 ⟨k, fromStored_ok hk ▸ ofText_asStr k, fromStored_ok hk⟩⟩
  · rintro ⟨p, hp⟩
    obtain ⟨k, -, rfl⟩ := newKey_eq_some.1 hp
    exact ⟨k, fromStored_asStr k⟩

/-! ## Containment, three ways -/

theorem newKey_asStr (k : PathKey) : newKey k.asStr = some k.asStr :=
  newKey_eq_some.2 ⟨k, ofText_asStr k, rfl⟩

theorem components_asStr (k : PathKey) :
    components k.asStr = .rootDir :: k.segments.map .normal :=
  ofText_iff_components.1 (ofText_asStr k)

theorem map_normal_prefix {xs ys : List Bytes} :
    xs.map Part.normal <+: ys.map Part.normal ↔ xs <+: ys := by
  constructor
  · rintro ⟨t, ht⟩
    obtain ⟨l₁, l₂, rfl, h₁, -⟩ := List.map_eq_append_iff.1 ht.symm
    have hinj : Function.Injective Part.normal := fun _ _ h => Part.normal.inj h
    rw [hinj.list_map h₁.symm]
    exact List.prefix_append _ _
  · exact fun h => h.map _

/-- **Containment of a key is `starts_with` on every spelling of it.** -/
theorem isAtOrUnder_iff_startsWith {raw : Bytes} {k o : PathKey} (h : newKey raw = some k.asStr) :
    k.isAtOrUnder o = true ↔ startsWith raw o.asStr = true := by
  obtain ⟨l, hl, hs⟩ := newKey_eq_some.1 h
  obtain rfl := asStr_injective hs
  rw [isAtOrUnder_iff, startsWith, List.isPrefixOf_iff_prefix, components_asStr,
    ofText_iff_components.1 hl, List.cons_prefix_cons, map_normal_prefix]
  simp

instance : IsPartialOrder PathKey fun k o => k.isAtOrUnder o = true where
  refl := isAtOrUnder_refl
  trans _ _ _ := isAtOrUnder_trans
  antisymm _ _ := isAtOrUnder_antisymm

/-! ## The laws -/

/-- What a key is for: one key for one list of components, a strict reading, containment of
components, and an interval that holds what lies strictly below. -/
structure KeyAlgebra (k d : PathKey) : Prop where
  spelling : ∀ p q, components p = components q → newKey p = newKey q
  stored : ∀ raw, (∃ l, fromStored raw = .ok l) ↔ ∃ p, newKey p = some raw
  order : IsPartialOrder PathKey fun a b => a.isAtOrUnder b = true
  containment : ∀ p (a b : PathKey), newKey p = some a.asStr →
    (a.isAtOrUnder b = true ↔ startsWith p b.asStr = true)
  interval : (k.subtreeBounds.1 ≤ d.asStr ∧ d.asStr < k.subtreeBounds.2) ↔
    startsWith d.asStr k.asStr = true ∧ d ≠ k

/-- **The laws hold of every two keys, unless both are the file system's root.** -/
theorem keyAlgebra_iff (k d : PathKey) : KeyAlgebra k d ↔ ¬(k.asStr = [47] ∧ d.asStr = [47]) := by
  have hinterval : ((k.subtreeBounds.1 ≤ d.asStr ∧ d.asStr < k.subtreeBounds.2) ↔
      startsWith d.asStr k.asStr = true ∧ d ≠ k) ↔ ¬(k.asStr = [47] ∧ d.asStr = [47]) := by
    rw [mem_subtree_iff, ← isAtOrUnder_iff_startsWith (newKey_asStr d), asStr_eq_slash,
      asStr_eq_slash]
    constructor
    · rintro h ⟨hk, hd⟩
      obtain rfl : d = k := ext_segments (hd.trans hk.symm)
      exact (h.1 ⟨isAtOrUnder_refl d, .inr hk⟩).2 rfl
    · intro h
      refine and_congr_right fun _ => ⟨?_, .inl⟩
      rintro (hne | hk) rfl
      · exact hne rfl
      · exact h ⟨hk, hk⟩
  constructor
  · exact fun h => hinterval.1 h.interval
  · intro h
    exact ⟨fun _ _ => newKey_congr, fun _ => fromStored_ok_iff, inferInstance,
      fun _ _ _ => isAtOrUnder_iff_startsWith, hinterval.2 h⟩

/-- The root's interval starts at the root itself. -/
theorem not_keyAlgebra_root : ¬KeyAlgebra ⟨[], by simp⟩ ⟨[], by simp⟩ := by
  intro h
  have hin := h.interval.1 (by decide)
  exact hin.2 rfl

end PathKey

end DedupCommando
