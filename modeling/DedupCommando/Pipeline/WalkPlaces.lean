import DedupCommando.Pipeline.Walk
import DedupCommando.Store.SignatureForest

/-!
# Where a walk's omissions are counted

* `new_prefix_iff` — among pathnames with keys, lying under is being a prefix.
* `attributeChild_covers`, `attributeChild_place` — the cell of an entry lies at or under every
  directory above the entry, and under no other directory of its root.
* `SinglePlace`, `errorCell_spec` — the cell of an error is the one place below all others that
  the error names, and the root where there is none.
* `errorCell_covers`, `errorCell_place` — what such a cell says of a directory.
-/

set_option autoImplicit false

namespace DedupCommando

open Signatures (new_above parents_eq prefixes mem_prefixes)

/-! ## Keys of prefixes -/

theorem namesOf_prefix :
    ∀ {rest rest' : List Component} {names names' : List Bytes},
      PathKey.namesOf rest = some names → PathKey.namesOf rest' = some names' →
      names <+: names' → rest <+: rest'
  | [], _, _, _, _, _, _ => List.nil_prefix
  | .normal n :: rest, rest', names, names', h, h', hpre => by
    obtain ⟨tail, htail, rfl⟩ := Option.map_eq_some_iff.1 h
    cases rest' with
    | nil =>
      cases h'
      exact absurd (List.prefix_nil.1 hpre) (List.cons_ne_nil _ _)
    | cons c rest' =>
      cases c with
      | normal m =>
        obtain ⟨tail', htail', rfl⟩ := Option.map_eq_some_iff.1 h'
        obtain ⟨hname, hrest⟩ := List.cons_prefix_cons.1 hpre
        obtain rfl := Name.bytes_injective hname
        exact List.cons_prefix_cons.2 ⟨rfl, namesOf_prefix htail htail' hrest⟩
      | rootDir => cases h'
      | curDir => cases h'
      | parentDir => cases h'
  | .rootDir :: _, _, _, _, h, _, _ => by cases h
  | .curDir :: _, _, _, _, h, _, _ => by cases h
  | .parentDir :: _, _, _, _, h, _, _ => by cases h

theorem new_absolute {p : Path} {k : PathKey} (h : PathKey.new p = some k) :
    p.isAbsolute = true := by
  obtain ⟨rest, rfl, -⟩ := new_eq_some h
  rfl

/-- Of two pathnames with keys, one lies under the other when its components begin with those. -/
theorem new_prefix_iff {p q : Path} {k l : PathKey} (hp : PathKey.new p = some k)
    (hq : PathKey.new q = some l) : p <+: q ↔ l.isAtOrUnder k = true := by
  constructor
  · intro hpre
    obtain ⟨k', hk', hunder⟩ := new_above hq hpre (new_absolute hp)
    obtain rfl := Option.some.inj (hp.symm.trans hk')
    exact hunder
  · intro hunder
    obtain ⟨rest, rfl, hrest⟩ := new_eq_some hp
    obtain ⟨rest', rfl, hrest'⟩ := new_eq_some hq
    exact List.cons_prefix_cons.2
      ⟨rfl, namesOf_prefix hrest hrest' (PathKey.isAtOrUnder_iff.1 hunder)⟩

/-! ## The places above a pathname -/

theorem mem_parents {p q : Path} (h : p.isAbsolute = true) :
    q ∈ p.parents ↔ q <+: p ∧ q ≠ p ∧ q ≠ [] := by
  rw [parents_eq h, mem_prefixes]
  constructor
  · rintro ⟨k, hk, hlt, rfl⟩
    refine ⟨List.take_prefix k p, fun he => ?_, fun he => ?_⟩
    · have := congrArg List.length he
      rw [List.length_take] at this
      omega
    · have := congrArg List.length he
      rw [List.length_take, List.length_nil] at this
      omega
  · rintro ⟨hpre, hne, hnil⟩
    have hlen : q.length < p.length := by
      refine lt_of_le_of_ne hpre.length_le fun he => hne (hpre.eq_of_length he)
    exact ⟨q.length, List.length_pos_iff.2 hnil, hlen, (List.prefix_iff_eq_take.1 hpre).symm⟩

/-- The places from a pathname upwards, each one above the one before. -/
theorem parents_pairwise {p : Path} (h : p.isAbsolute = true) :
    (p :: p.parents).Pairwise fun a b => b <+: a := by
  rw [List.pairwise_cons]
  refine ⟨fun q hq => ((mem_parents h).1 hq).1, ?_⟩
  rw [parents_eq h, prefixes, List.pairwise_map, List.pairwise_reverse]
  refine (List.pairwise_lt_range' (s := 1) (n := p.length - 1)).imp fun {a b} hab => ?_
  exact List.take_prefix_take_left (by omega)

theorem keyInside_some {root k : PathKey} :
    ∀ {places : List Path}, keyInside root places = some k →
      k.isAtOrUnder root = true ∧ ∃ p ∈ places, PathKey.new p = some k
  | [], h => by cases h
  | candidate :: above, h => by
    unfold keyInside at h
    split at h
    · rename_i key hkey
      split at h
      · rename_i hin
        cases h
        exact ⟨hin, candidate, List.mem_cons_self, hkey⟩
      · obtain ⟨hin, p, hp, hnew⟩ := keyInside_some h
        exact ⟨hin, p, List.mem_cons_of_mem _ hp, hnew⟩
    · obtain ⟨hin, p, hp, hnew⟩ := keyInside_some h
      exact ⟨hin, p, List.mem_cons_of_mem _ hp, hnew⟩

/-- The first key found lies at or under every key that could be. -/
theorem keyInside_lowest {root l : PathKey} (hin : l.isAtOrUnder root = true) :
    ∀ {places : List Path}, places.Pairwise (fun a b => b <+: a) →
      ∀ {q : Path}, q ∈ places → PathKey.new q = some l →
      ∃ k, keyInside root places = some k ∧ k.isAtOrUnder l = true
  | candidate :: above, hdesc, q, hq, hnew => by
    obtain ⟨hfirst, habove⟩ := List.pairwise_cons.1 hdesc
    unfold keyInside
    rcases List.mem_cons.1 hq with rfl | hq
    · rw [hnew]
      simp only [hin, if_true]
      exact ⟨l, rfl, PathKey.isAtOrUnder_refl l⟩
    · cases hkey : PathKey.new candidate with
      | none => exact keyInside_lowest hin habove hq hnew
      | some key =>
        simp only
        split
        · exact ⟨key, rfl, (new_prefix_iff hnew hkey).1 (hfirst q hq)⟩
        · exact keyInside_lowest hin habove hq hnew

section Directory

variable {root key : PathKey} {path : Path}

/-! ## The cell of an entry -/

/-- **An omitted entry is counted at or under every directory above it.** -/
theorem attributeChild_covers (hkey : PathKey.new path = some key)
    (hin : key.isAtOrUnder root = true) {p : Path} (hpre : path <+: p) (hne : path ≠ p) :
    (attributeChild p root).isAtOrUnder key = true := by
  obtain ⟨rest, rfl, -⟩ := new_eq_some hkey
  have habs : p.isAbsolute = true := by
    obtain ⟨more, rfl⟩ := hpre
    rfl
  obtain ⟨-, hdesc⟩ := List.pairwise_cons.1 (parents_pairwise habs)
  obtain ⟨k, hk, hunder⟩ := keyInside_lowest hin hdesc
    ((mem_parents habs).2 ⟨hpre, hne, List.cons_ne_nil _ _⟩) hkey
  unfold attributeChild
  rw [hk]
  exact hunder

/-- And under no directory of its root but those above it; the root itself stands for an entry
that has no place inside. -/
theorem attributeChild_place (hkey : PathKey.new path = some key)
    (hin : key.isAtOrUnder root = true) {p : Path}
    (h : (attributeChild p root).isAtOrUnder key = true) :
    (path <+: p ∧ path ≠ p) ∨ key = root := by
  unfold attributeChild at h
  cases hfound : keyInside root p.parents with
  | none =>
    rw [hfound] at h
    exact .inr (PathKey.isAtOrUnder_antisymm hin h)
  | some k =>
    rw [hfound, Option.getD_some] at h
    obtain ⟨-, q, hq, hnew⟩ := keyInside_some hfound
    have hpath : path <+: q := (new_prefix_iff hkey hnew).2 h
    have habs : p.isAbsolute = true := by
      by_contra hrel
      have hqabs := new_absolute hnew
      unfold Path.parents at hq
      obtain ⟨n, -, rfl⟩ := List.mem_map.1 (List.mem_filter.1 hq).1
      obtain ⟨rest, htake, -⟩ := new_eq_some hnew
      have : p.head? = some .rootDir := by
        cases p with
        | nil => simp at htake
        | cons c p =>
          cases n with
          | zero => simp at htake
          | succ n => exact congrArg some (List.cons.inj htake).1
      exact hrel (decide_eq_true this)
    obtain ⟨hqp, hne, -⟩ := (mem_parents habs).1 hq
    refine .inl ⟨hpath.trans hqp, fun he => hne (hqp.eq_of_length_le ?_)⟩
    rw [← he]
    exact hpath.length_le

theorem attributeChild_inside (p : Path) : (attributeChild p root).isAtOrUnder root = true := by
  unfold attributeChild
  cases hfound : keyInside root p.parents with
  | none => exact PathKey.isAtOrUnder_refl root
  | some k => exact (keyInside_some hfound).1

/-! ## The cell of an error -/

theorem attributeErrorPath_covers (hkey : PathKey.new path = some key)
    (hin : key.isAtOrUnder root = true) {p : Path} (hpre : path <+: p) :
    ∃ k, attributeErrorPath p root = some k ∧ k.isAtOrUnder key = true := by
  obtain ⟨rest, rfl, -⟩ := new_eq_some hkey
  have habs : p.isAbsolute = true := by
    obtain ⟨more, rfl⟩ := hpre
    rfl
  refine keyInside_lowest hin (parents_pairwise habs) ?_ hkey
  by_cases he : Component.rootDir :: rest = p
  · exact he ▸ List.mem_cons_self
  · exact List.mem_cons_of_mem _ ((mem_parents habs).2 ⟨hpre, he, List.cons_ne_nil _ _⟩)

theorem attributeErrorPath_place (hkey : PathKey.new path = some key) {p : Path} {k : PathKey}
    (h : attributeErrorPath p root = some k) (hunder : k.isAtOrUnder key = true) : path <+: p := by
  obtain ⟨-, q, hq, hnew⟩ := keyInside_some h
  have hqp : q <+: p := by
    rcases List.mem_cons.1 hq with rfl | hq
    · exact List.prefix_rfl
    · unfold Path.parents at hq
      obtain ⟨n, -, rfl⟩ := List.mem_map.1 (List.mem_filter.1 hq).1
      exact List.take_prefix n p
  exact ((new_prefix_iff hkey hnew).2 hunder).trans hqp

end Directory

theorem mem_locationsOf {root k : PathKey} :
    ∀ {paths : List Path} {acc : List PathKey},
      k ∈ locationsOf root paths acc ↔
        k ∈ acc ∨ ∃ p ∈ paths, attributeErrorPath p root = some k
  | [], acc => by simp [locationsOf]
  | path :: rest, acc => by
    have hcons : (∃ p ∈ path :: rest, attributeErrorPath p root = some k) ↔
        attributeErrorPath path root = some k ∨
          ∃ p ∈ rest, attributeErrorPath p root = some k := by simp
    unfold locationsOf
    rw [hcons]
    split
    · rename_i key hkey
      rw [mem_locationsOf, hkey, Option.some.injEq, ← or_assoc]
      refine or_congr ?_ Iff.rfl
      split
      · rename_i hmem
        exact ⟨.inl, fun h => h.elim id fun he => he ▸ List.contains_iff_mem.1 hmem⟩
      · rw [List.mem_append, List.mem_singleton, eq_comm (a := k)]
    · rename_i hnone
      rw [mem_locationsOf, hnone]
      simp

/-- `place` is named by the error and lies at or under every other place that it names. -/
structure SinglePlace (err : WalkError) (root place : PathKey) : Prop where
  named : ∃ p ∈ errorPaths err, attributeErrorPath p root = some place
  lowest : ∀ p ∈ errorPaths err, ∀ k, attributeErrorPath p root = some k →
    place.isAtOrUnder k = true

theorem SinglePlace.unique {err : WalkError} {root a b : PathKey} (ha : SinglePlace err root a)
    (hb : SinglePlace err root b) : a = b := by
  obtain ⟨p, hp, hpa⟩ := ha.named
  obtain ⟨q, hq, hqb⟩ := hb.named
  exact PathKey.isAtOrUnder_antisymm (ha.lowest q hq b hqb) (hb.lowest p hp a hpa)

/-- **The cell of an error**: its single place, and the root's own where it has none. -/
theorem errorCell_spec (err : WalkError) (root : PathKey) :
    SinglePlace err root (errorCell err root) ∨
      (∀ place, ¬SinglePlace err root place) ∧ errorCell err root = root := by
  have hmem : ∀ k, k ∈ locationsOf root (errorPaths err) [] ↔
      ∃ p ∈ errorPaths err, attributeErrorPath p root = some k := by
    intro k
    rw [mem_locationsOf]
    simp
  unfold errorCell
  split
  · rename_i hnone
    refine .inr ⟨fun place h => ?_, rfl⟩
    have := (hmem place).2 h.named
    rw [hnone] at this
    exact List.not_mem_nil this
  · rename_i only hone
    refine .inl ⟨(hmem only).1 (by rw [hone]; exact List.mem_singleton_self only), fun p hp k hk => ?_⟩
    have := (hmem k).2 ⟨p, hp, hk⟩
    rw [hone, List.mem_singleton] at this
    exact this ▸ PathKey.isAtOrUnder_refl k
  · rename_i hnil hsingle
    cases hfound : (locationsOf root (errorPaths err) []).find? fun candidate =>
        (locationsOf root (errorPaths err) []).all fun other => candidate.isAtOrUnder other with
    | some place =>
      rw [Option.getD_some]
      have hall := List.find?_some hfound
      rw [List.all_eq_true] at hall
      exact .inl ⟨(hmem place).1 (List.mem_of_find?_eq_some hfound),
        fun p hp k hk => hall k ((hmem k).2 ⟨p, hp, hk⟩)⟩
    | none =>
      refine .inr ⟨fun place h => ?_, rfl⟩
      have hno := List.find?_eq_none.1 hfound place ((hmem place).2 h.named)
      rw [List.all_eq_true] at hno
      refine hno fun k hk => ?_
      obtain ⟨p, hp, hpk⟩ := (hmem k).1 hk
      exact h.lowest p hp k hpk

theorem errorCell_inside (err : WalkError) (root : PathKey) :
    (errorCell err root).isAtOrUnder root = true := by
  rcases errorCell_spec err root with h | ⟨-, h⟩
  · obtain ⟨p, -, hp⟩ := h.named
    exact (keyInside_some hp).1
  · rw [h]
    exact PathKey.isAtOrUnder_refl root

section Directory

variable {root key : PathKey} {path : Path}

/-- **An error with a single place is counted at or under every directory above a place it
names.** -/
theorem errorCell_covers (hkey : PathKey.new path = some key) (hin : key.isAtOrUnder root = true)
    {err : WalkError} {p : Path} (hp : p ∈ errorPaths err) (hpre : path <+: p) :
    errorCell err root = root ∨ (errorCell err root).isAtOrUnder key = true := by
  rcases errorCell_spec err root with h | ⟨-, h⟩
  · obtain ⟨k, hk, hunder⟩ := attributeErrorPath_covers hkey hin hpre
    exact .inr (PathKey.isAtOrUnder_trans (h.lowest p hp k hk) hunder)
  · exact .inl h

/-- A cell inside the root lies under a directory only when the error names a place there. -/
theorem errorCell_place (hkey : PathKey.new path = some key) {err : WalkError}
    (h : (errorCell err root).isAtOrUnder key = true) :
    errorCell err root = root ∨ ∃ p ∈ errorPaths err, path <+: p := by
  rcases errorCell_spec err root with hsingle | ⟨-, hroot⟩
  · obtain ⟨p, hp, hnamed⟩ := hsingle.named
    exact .inr ⟨p, hp, attributeErrorPath_place hkey hnamed h⟩
  · exact .inl hroot

end Directory

end DedupCommando
