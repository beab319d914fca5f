import DedupCommando.Path

/-!
# Path keys

The one storage spelling of a scan root and of a directory: an absolute path, component by
component, in UTF-8.

* `PathKey` — the components, each one a name `Path::components` keeps.
* `new`, `fromStored` — the constructor on paths, and the strict reading of a stored spelling.
* `isAtOrUnder`, `subtreeBounds` — containment and the string interval of a subtree;
  `isAtOrUnder_iff` and `mem_subtree_iff` say what they are on components.
* `fromStored_asStr` — what is stored reads back.
-/

set_option autoImplicit false

namespace DedupCommando

/-- A component that a key may hold: a name in UTF-8. -/
def isSegment (b : Bytes) : Bool :=
  decide (b ≠ [] ∧ b ≠ [46] ∧ b ≠ [46, 46] ∧ 47 ∉ b) && isUtf8 b

theorem isSegment_iff {b : Bytes} :
    isSegment b = true ↔ (b ≠ [] ∧ b ≠ [46] ∧ b ≠ [46, 46] ∧ 47 ∉ b) ∧ isUtf8 b = true := by
  simp only [isSegment, Bool.and_eq_true, decide_eq_true_eq]

structure PathKey where
  segments : List Bytes
  valid : ∀ s ∈ segments, isSegment s = true

/-- The components spelled one behind the other, each after its separator. -/
def spell (segments : List Bytes) : Bytes := segments.flatMap fun s => 47 :: s

@[simp]
theorem spell_nil : spell [] = [] := rfl

@[simp]
theorem spell_cons (s : Bytes) (ss : List Bytes) : spell (s :: ss) = 47 :: (s ++ spell ss) := by
  simp [spell]

theorem spell_append (ss ts : List Bytes) : spell (ss ++ ts) = spell ss ++ spell ts := by
  simp [spell]

namespace PathKey

theorem ext_segments {k l : PathKey} (h : k.segments = l.segments) : k = l := by
  cases k; cases l; simp_all

/-- The stored string. -/
def asStr (k : PathKey) : Bytes :=
  if k.segments = [] then [47] else spell k.segments

def display (k : PathKey) : String := k.asStr.display

/-- A key of components that are all fit for one. -/
def ofSegments (ss : List Bytes) : Option PathKey :=
  if h : ∀ s ∈ ss, isSegment s = true then some ⟨ss, h⟩ else none

/-- The names behind a root directory; any other component is refused. -/
def namesOf : List Component → Option (List Bytes)
  | [] => some []
  | .normal n :: rest => (namesOf rest).map fun l => n.bytes :: l
  | _ :: _ => none

/-- `PathKey::new`: refuses a relative path, `..` and names that are not UTF-8. -/
def new (path : Path) : Option PathKey :=
  match path with
  | .rootDir :: rest => (namesOf rest).bind ofSegments
  | _ => none

/-- `PathKey::new` of a pathname given as a string. -/
def ofText (raw : Bytes) : Option PathKey :=
  if raw.head? = some 47 then
    ofSegments ((raw.splitOn 47).filter fun s => decide (s ≠ [] ∧ s ≠ [46]))
  else none

/-- `PathKey::from_stored`: only the normalized spelling is a key. -/
def fromStored (raw : Bytes) : Except String PathKey :=
  let malformed := .error ("dedcom.db holds a malformed path key (" ++ terminal raw.display ++
    "); rescan, or move the old dedcom.db aside.")
  match ofText raw with
  | some key => if key.asStr = raw then .ok key else malformed
  | none => malformed

def isAtOrUnder (k other : PathKey) : Bool :=
  decide (k.segments = other.segments) || decide (other.asStr = [47]) ||
    (other.asStr ++ [47]).isPrefixOf k.asStr

/-- The half-open interval that the ledger is queried by. -/
def subtreeBounds (k : PathKey) : Bytes × Bytes :=
  if k.asStr = [47] then ([47], [48]) else (k.asStr ++ [47], k.asStr ++ [48])

/-! ## Spelling -/

theorem slash_notMem {k : PathKey} {s : Bytes} (hs : s ∈ k.segments) : 47 ∉ s :=
  (isSegment_iff.1 (k.valid s hs)).1.2.2.2

theorem spell_ne_slash {ss : List Bytes} (h : ∀ s ∈ ss, isSegment s = true) : spell ss ≠ [47] := by
  cases ss with
  | nil => simp
  | cons s ss =>
    have hne := (isSegment_iff.1 (h s List.mem_cons_self)).1.1
    simp [hne]

@[simp]
theorem asStr_eq_slash {k : PathKey} : k.asStr = [47] ↔ k.segments = [] := by
  unfold asStr
  split
  · rename_i h; simp [h]
  · rename_i h; simp [h, spell_ne_slash k.valid]

theorem asStr_of_ne {k : PathKey} (h : k.segments ≠ []) : k.asStr = spell k.segments := if_neg h

theorem splitOn_spell {ss : List Bytes} (h : ∀ s ∈ ss, 47 ∉ s) :
    (spell ss).splitOn 47 = [] :: ss := by
  have hi : spell ss = [47].intercalate ([] :: ss) := by
    induction ss with
    | nil => rfl
    | cons s ss ih =>
      have ih := ih fun t ht => h t (List.mem_cons_of_mem _ ht)
      rw [spell_cons, ih]
      cases ss <;> simp [List.intercalate]
  rw [hi]
  refine List.splitOn_intercalate 47 ?_ (List.cons_ne_nil _ _)
  intro l hl
  rcases List.mem_cons.1 hl with rfl | hl
  · exact List.not_mem_nil
  · exact h l hl

theorem ofSegments_segments (k : PathKey) : ofSegments k.segments = some k := by
  unfold ofSegments
  rw [dif_pos k.valid]

theorem ofSegments_eq_some {ss : List Bytes} {k : PathKey} :
    ofSegments ss = some k ↔ k.segments = ss := by
  constructor
  · intro h
    unfold ofSegments at h
    split at h
    · cases h; rfl
    · cases h
  · rintro rfl
    exact ofSegments_segments k

theorem ofText_asStr (k : PathKey) : ofText k.asStr = some k := by
  unfold ofText
  have hkeep : k.segments.filter (fun s => decide (s ≠ [] ∧ s ≠ [46])) = k.segments := by
    rw [List.filter_eq_self]
    intro s hs
    have h := (isSegment_iff.1 (k.valid s hs)).1
    exact decide_eq_true ⟨h.1, h.2.1⟩
  by_cases hk : k.segments = []
  · rw [asStr_eq_slash.2 hk, if_pos (by rfl)]
    have : (([47] : Bytes).splitOn 47).filter (fun s => decide (s ≠ [] ∧ s ≠ [46])) = [] := by
      decide
    rw [this, ← hk, ofSegments_segments]
  · rw [asStr_of_ne hk]
    obtain ⟨s, ss, hs⟩ := List.exists_cons_of_ne_nil hk
    rw [if_pos (by rw [hs]; rfl), splitOn_spell fun s hs => slash_notMem hs]
    rw [List.filter_cons_of_neg (by simp), hkeep, ofSegments_segments]

/-- **What is stored reads back.** -/
theorem fromStored_asStr (k : PathKey) : fromStored k.asStr = .ok k := by
  unfold fromStored
  simp [ofText_asStr]

theorem fromStored_ok {raw : Bytes} {k : PathKey} (h : fromStored raw = .ok k) : k.asStr = raw := by
  unfold fromStored at h
  dsimp only at h
  split at h
  · split at h
    · rename_i heq; cases h; exact heq
    · cases h
  · cases h

theorem asStr_injective : Function.Injective asStr := by
  intro k l h
  have := ofText_asStr k
  rw [h, ofText_asStr] at this
  exact (Option.some.inj this).symm

instance : LinearOrder PathKey := LinearOrder.lift' asStr asStr_injective

/-! ## Containment -/

theorem prefix_cancel {x y : Bytes} (hy : y = [] ∨ ∃ y', y = 47 :: y') :
    ∀ {s t : Bytes}, 47 ∉ s → 47 ∉ t → s ++ 47 :: x <+: t ++ y → s = t ∧ 47 :: x <+: y
  | [], [], _, _, h => ⟨rfl, h⟩
  | [], c :: t, _, ht, h => by
    have := (List.cons_prefix_cons.1 h).1
    exact absurd (this ▸ List.mem_cons_self) ht
  | c :: s, [], hs, _, h => by
    rcases hy with rfl | ⟨y', rfl⟩
    · simp at h
    · have := (List.cons_prefix_cons.1 h).1
      exact absurd (this ▸ List.mem_cons_self) hs
  | c :: s, d :: t, hs, ht, h => by
    obtain ⟨rfl, h'⟩ := List.cons_prefix_cons.1 h
    obtain ⟨rfl, hx⟩ := prefix_cancel hy (fun hm => hs (List.mem_cons_of_mem _ hm))
      (fun hm => ht (List.mem_cons_of_mem _ hm)) h'
    exact ⟨rfl, hx⟩

theorem spell_shape (ss : List Bytes) : spell ss = [] ∨ ∃ y, spell ss = 47 :: y := by
  cases ss with
  | nil => exact .inl rfl
  | cons s ss => exact .inr ⟨_, spell_cons s ss⟩

/-- A spelling and a separator begin another spelling exactly below it. -/
theorem spell_prefix_iff :
    ∀ {os ks : List Bytes}, (∀ s ∈ os, 47 ∉ s) → (∀ s ∈ ks, 47 ∉ s) →
      (spell os ++ [47] <+: spell ks ↔ os <+: ks ∧ os ≠ ks)
  | [], [], _, _ => by simp
  | [], k :: ks, _, _ => by simp
  | o :: os, [], _, _ => by simp
  | o :: os, k :: ks, ho, hk => by
    have ho' : ∀ s ∈ os, 47 ∉ s := fun s hs => ho s (List.mem_cons_of_mem _ hs)
    have hk' : ∀ s ∈ ks, 47 ∉ s := fun s hs => hk s (List.mem_cons_of_mem _ hs)
    obtain ⟨x, hx⟩ : ∃ x, spell os ++ [47] = 47 :: x := by
      rcases spell_shape os with h | ⟨y, h⟩
      · exact ⟨[], by rw [h]; rfl⟩
      · exact ⟨y ++ [47], by rw [h]; rfl⟩
    rw [spell_cons, spell_cons, List.cons_append, List.append_assoc, hx, List.cons_prefix_cons]
    constructor
    · rintro ⟨-, h⟩
      obtain ⟨rfl, h'⟩ := prefix_cancel (spell_shape ks) (ho o List.mem_cons_self)
        (hk k List.mem_cons_self) h
      rw [← hx, spell_prefix_iff ho' hk'] at h'
      exact ⟨List.cons_prefix_cons.2 ⟨rfl, h'.1⟩, fun he => h'.2 (List.cons.inj he).2⟩
    · rintro ⟨h, hne⟩
      obtain ⟨rfl, h'⟩ := List.cons_prefix_cons.1 h
      refine ⟨rfl, ?_⟩
      rw [List.prefix_append_right_inj, ← hx, spell_prefix_iff ho' hk']
      exact ⟨h', fun he => hne (he ▸ rfl)⟩

theorem prefix_asStr_iff {k o : PathKey} (ho : o.segments ≠ []) :
    o.asStr ++ [47] <+: k.asStr ↔ o.segments <+: k.segments ∧ o.segments ≠ k.segments := by
  rw [asStr_of_ne ho]
  by_cases hk : k.segments = []
  · rw [asStr_eq_slash.2 hk, hk]
    constructor
    · intro h
      obtain ⟨s, ss, hs⟩ := List.exists_cons_of_ne_nil ho
      have hlen := h.length_le
      rw [hs, spell_cons] at hlen
      simp at hlen
    · rintro ⟨h, hne⟩
      exact absurd (List.prefix_nil.1 h) hne
  · rw [asStr_of_ne hk]
    exact spell_prefix_iff (fun s hs => slash_notMem hs) (fun s hs => slash_notMem hs)

/-- **Containment is containment of components.** -/
theorem isAtOrUnder_iff {k o : PathKey} : k.isAtOrUnder o = true ↔ o.segments <+: k.segments := by
  unfold isAtOrUnder
  simp only [Bool.or_eq_true, decide_eq_true_eq, asStr_eq_slash, List.isPrefixOf_iff_prefix]
  by_cases ho : o.segments = []
  · simp [ho]
  · rw [prefix_asStr_iff ho]
    constructor
    · rintro ((h | h) | h)
      · exact h ▸ List.prefix_rfl
      · exact absurd h ho
      · exact h.1
    · intro h
      by_cases he : k.segments = o.segments
      · exact .inl (.inl he)
      · exact .inr ⟨h, Ne.symm he⟩

theorem isAtOrUnder_refl (k : PathKey) : k.isAtOrUnder k = true :=
  isAtOrUnder_iff.2 List.prefix_rfl

theorem isAtOrUnder_trans {a b c : PathKey} (h₁ : a.isAtOrUnder b = true)
    (h₂ : b.isAtOrUnder c = true) : a.isAtOrUnder c = true :=
  isAtOrUnder_iff.2 ((isAtOrUnder_iff.1 h₂).trans (isAtOrUnder_iff.1 h₁))

theorem isAtOrUnder_antisymm {a b : PathKey} (h₁ : a.isAtOrUnder b = true)
    (h₂ : b.isAtOrUnder a = true) : a = b :=
  ext_segments (((isAtOrUnder_iff.1 h₂).eq_of_length_le (isAtOrUnder_iff.1 h₁).length_le))

/-- Two keys over one place lie over one another. -/
theorem isAtOrUnder_total {a b k : PathKey} (h₁ : k.isAtOrUnder a = true)
    (h₂ : k.isAtOrUnder b = true) : a.isAtOrUnder b = true ∨ b.isAtOrUnder a = true :=
  (List.prefix_or_prefix_of_prefix (isAtOrUnder_iff.1 h₂) (isAtOrUnder_iff.1 h₁)).imp
    isAtOrUnder_iff.2 isAtOrUnder_iff.2

/-- The strings between a prefix with one separator and the same prefix with the next byte. -/
theorem prefix_interval {α : Type} [LinearOrder α] {c d : α} (hcd : ∀ x, c ≤ x → x < d → x = c)
    (hlt : c < d) : ∀ (p s : List α), (p ++ [c] ≤ s ∧ s < p ++ [d]) ↔ p ++ [c] <+: s
  | [], s => by
    cases s with
    | nil => simp
    | cons x s =>
      simp only [List.nil_append, List.cons_prefix_cons, List.nil_prefix, and_true]
      rw [← not_lt, List.cons_lt_cons_iff, List.cons_lt_cons_iff]
      constructor
      · rintro ⟨h₁, h₂⟩
        have hle : c ≤ x := not_lt.1 fun h => h₁ (.inl h)
        rcases h₂ with h₂ | ⟨-, h₂⟩
        · exact (hcd x hle h₂).symm
        · exact absurd h₂ (List.not_lt_nil _)
      · rintro rfl
        exact ⟨by simp, .inl hlt⟩
  | a :: p, s => by
    cases s with
    | nil => simp
    | cons x s =>
      simp only [List.cons_append, List.cons_prefix_cons]
      rw [← prefix_interval hcd hlt p s, ← not_lt, ← not_lt, List.cons_lt_cons_iff,
        List.cons_lt_cons_iff]
      constructor
      · rintro ⟨h₁, h₂⟩
        have hax : a ≤ x := not_lt.1 fun h => h₁ (.inl h)
        rcases h₂ with h₂ | ⟨rfl, h₂⟩
        · exact absurd h₂ (not_lt.2 hax)
        · exact ⟨rfl, fun h => h₁ (.inr ⟨rfl, h⟩), h₂⟩
      · rintro ⟨rfl, h₁, h₂⟩
        exact ⟨by simpa using h₁, .inr ⟨rfl, h₂⟩⟩

/-- **The interval of a key is what lies below it**, and for the file system's root the root
itself as well. -/
theorem mem_subtree_iff {k d : PathKey} :
    (k.subtreeBounds.1 ≤ d.asStr ∧ d.asStr < k.subtreeBounds.2) ↔
      d.isAtOrUnder k = true ∧ (d ≠ k ∨ k.segments = []) := by
  have hstep : ∀ x : Byte, 47 ≤ x → x < 48 → x = 47 := by
    intro x h₁ h₂
    have h₁ : 47 ≤ x.val := h₁
    have h₂ : x.val < 48 := h₂
    exact Fin.ext (by change x.val = 47; omega)
  unfold subtreeBounds
  split
  · rename_i hk
    rw [asStr_eq_slash] at hk
    have hroot : ([] ++ [47] : Bytes) <+: d.asStr := by
      by_cases hd : d.segments = []
      · rw [asStr_eq_slash.2 hd]; exact List.prefix_rfl
      · obtain ⟨s, ss, hs⟩ := List.exists_cons_of_ne_nil hd
        rw [asStr_of_ne hd, hs, spell_cons]
        simp
    have h := (prefix_interval hstep (by decide) [] d.asStr).2 hroot
    simp only [List.nil_append] at h
    refine ⟨fun _ => ⟨isAtOrUnder_iff.2 (hk ▸ List.nil_prefix), .inr hk⟩, fun _ => h⟩
  · rename_i hk
    rw [asStr_eq_slash] at hk
    rw [prefix_interval hstep (by decide), prefix_asStr_iff hk, isAtOrUnder_iff]
    refine and_congr_right fun _ => ?_
    constructor
    · exact fun h => .inl fun he => h (he ▸ rfl)
    · rintro (h | h)
      · exact fun he => h (ext_segments he.symm)
      · exact absurd h hk

end PathKey

end DedupCommando
