import Mathlib

/-!
# Grouping a list by a key

What a loop `for a in l { map.entry(key a).or_default().push(a) }` over an ordered map leaves
behind, as one value: the distinct keys in ascending order, each with the elements that carry
it in their original order.

* `keysOf`, `groupByKey` — the keys and the groups.
* `mem_keysOf`, `nodup_keysOf`, `sum_length_groupByKey` — every key once, and nothing lost or
  counted twice.
* `nodup_flatMap_keys` — keys collected from several lists are distinct exactly when no key is
  shared by two of them.
* `filter_flatMap_key` — lists gathered under distinct keys come apart again.
* `groupByKey_pair` — a group by a pair of keys, taken one key after the other.
* `groupByKey_map`, `groupByKey_perm`, `groupByKey_rekey` — groups under a map, in another order and
  by another key.
* `flatMap_groupByKey` — a list in the order of its keys is its groups, one after the other.
-/

set_option autoImplicit false

namespace Grouping

variable {α κ : Type} [LinearOrder κ]

/-- The distinct keys of a list, ascending. -/
def keysOf (key : α → κ) (l : List α) : List κ :=
  (l.map key).dedup.insertionSort (· ≤ ·)

/-- The elements of a list under each of its keys, keys ascending. -/
def groupByKey (key : α → κ) (l : List α) : List (κ × List α) :=
  (keysOf key l).map fun k => (k, l.filter fun a => decide (key a = k))

/-- The elements of one key. -/
def under (key : α → κ) (k : κ) (l : List α) : List α := l.filter fun a => decide (key a = k)

@[simp]
theorem mem_under {key : α → κ} {k : κ} {l : List α} {a : α} :
    a ∈ under key k l ↔ a ∈ l ∧ key a = k := by
  simp [under]

theorem groupByKey_eq (key : α → κ) (l : List α) :
    groupByKey key l = (keysOf key l).map fun k => (k, under key k l) := rfl

theorem keysOf_perm (key : α → κ) (l : List α) : (keysOf key l).Perm (l.map key).dedup :=
  List.perm_insertionSort _ _

@[simp]
theorem mem_keysOf {key : α → κ} {l : List α} {k : κ} :
    k ∈ keysOf key l ↔ ∃ a ∈ l, key a = k := by
  rw [(keysOf_perm key l).mem_iff, List.mem_dedup, List.mem_map]

theorem nodup_keysOf (key : α → κ) (l : List α) : (keysOf key l).Nodup :=
  (keysOf_perm key l).nodup_iff.2 (List.nodup_dedup _)

theorem map_fst_groupByKey (key : α → κ) (l : List α) :
    (groupByKey key l).map Prod.fst = keysOf key l := by
  simp [groupByKey, Function.comp_def]

theorem mem_groupByKey {key : α → κ} {l : List α} {g : κ × List α} :
    g ∈ groupByKey key l ↔
      (∃ a ∈ l, key a = g.1) ∧ g.2 = l.filter fun a => decide (key a = g.1) := by
  obtain ⟨k, as⟩ := g
  simp only [groupByKey, List.mem_map, mem_keysOf, Prod.mk.injEq]
  constructor
  · rintro ⟨k', hk, rfl, rfl⟩; exact ⟨hk, rfl⟩
  · rintro ⟨hk, has⟩; exact ⟨k, hk, rfl, has.symm⟩

/-- Every element has its group. -/
theorem exists_group (key : α → κ) {l : List α} {a : α} (h : a ∈ l) :
    ∃ g ∈ groupByKey key l, g.1 = key a ∧ a ∈ g.2 := by
  refine ⟨(key a, l.filter fun b => decide (key b = key a)), mem_groupByKey.2 ⟨⟨a, h, rfl⟩, rfl⟩, rfl, ?_⟩
  simpa using h

theorem group_ne_nil {key : α → κ} {l : List α} {g : κ × List α} (h : g ∈ groupByKey key l) :
    g.2 ≠ [] := by
  obtain ⟨⟨a, ha, hk⟩, hg⟩ := mem_groupByKey.1 h
  rw [hg]
  exact List.ne_nil_of_mem (List.mem_filter.2 ⟨ha, by simp [hk]⟩)

omit [LinearOrder κ] in
/-- Keys gathered list by list are distinct exactly when no two of the lists share a key. -/
theorem nodup_flatMap_keys {β : Type} (f : β → List κ) (bs : List β) (hf : ∀ b ∈ bs, (f b).Nodup) :
    (bs.flatMap f).Nodup ↔ bs.Pairwise fun b c => ∀ k ∈ f b, k ∉ f c := by
  rw [List.nodup_flatMap]
  constructor
  · rintro ⟨-, h⟩
    exact h.imp fun hd k hb hc => hd hb hc
  · intro h
    exact ⟨hf, h.imp fun hd k hb hc => hd k hb hc⟩

/-- Lists gathered under distinct keys come apart by the key again. -/
theorem filter_flatMap_key {β : Type} {f : α → List β} {key : α → κ} {keyOf : β → κ}
    (hkey : ∀ a, ∀ b ∈ f a, keyOf b = key a) :
    ∀ {as : List α}, (as.map key).Nodup → ∀ {a : α}, a ∈ as →
      (as.flatMap f).filter (fun b => decide (keyOf b = key a)) = f a
  | [], _, _, ha => absurd ha List.not_mem_nil
  | a₀ :: as, hnd, a, ha => by
    obtain ⟨hnew, hnd⟩ := List.nodup_cons.1 hnd
    rw [List.flatMap_cons, List.filter_append]
    rcases List.mem_cons.1 ha with rfl | ha
    · have hown : (f a).filter (fun b => decide (keyOf b = key a)) = f a :=
        List.filter_eq_self.2 fun b hb => by simp [hkey a b hb]
      have hrest : (as.flatMap f).filter (fun b => decide (keyOf b = key a)) = [] := by
        refine List.filter_eq_nil_iff.2 fun b hb => ?_
        obtain ⟨c, hc, hb⟩ := List.mem_flatMap.1 hb
        have hne : key c ≠ key a := fun he => hnew (he ▸ List.mem_map_of_mem hc)
        simpa [hkey c b hb] using hne
      rw [hown, hrest, List.append_nil]
    · have hown : (f a₀).filter (fun b => decide (keyOf b = key a)) = [] := by
        refine List.filter_eq_nil_iff.2 fun b hb => ?_
        have hne : key a₀ ≠ key a := fun he => hnew (he ▸ List.mem_map_of_mem ha)
        simpa [hkey a₀ b hb] using hne
      rw [hown, List.nil_append]
      exact filter_flatMap_key hkey hnd ha

theorem keysOf_sorted (key : α → κ) (l : List α) : (keysOf key l).Pairwise (· < ·) := by
  have hle : (keysOf key l).Pairwise (· ≤ ·) := List.pairwise_insertionSort _ _
  exact (hle.and (nodup_keysOf key l)).imp fun h => lt_of_le_of_ne h.1 h.2

/-- Ascending keys are the keys of a list as soon as they are the same ones. -/
theorem eq_keysOf {key : α → κ} {l : List α} {ks : List κ} (hsorted : ks.Pairwise (· < ·))
    (hmem : ∀ k, k ∈ ks ↔ ∃ a ∈ l, key a = k) : ks = keysOf key l := by
  refine List.Perm.eq_of_pairwise' (hsorted.imp le_of_lt) ((keysOf_sorted key l).imp le_of_lt) ?_
  rw [List.perm_ext_iff_of_nodup (hsorted.imp ne_of_lt) (nodup_keysOf key l)]
  intro k
  rw [hmem k, mem_keysOf]

/-- Under a pair of keys, the groups of one first key are its elements grouped by the second. -/
theorem groupByKey_pair {κ' : Type} [LinearOrder κ'] (f : α → κ) (g : α → κ') (l : List α) (k : κ) :
    (under (fun p => (ofLex p.1).1) k (groupByKey (fun a => toLex (f a, g a)) l)).map Prod.snd =
      (groupByKey g (under f k l)).map Prod.snd := by
  have hkeys : (under (fun q => (ofLex q).1) k (keysOf (fun a => toLex (f a, g a)) l)).map
      (fun q => (ofLex q).2) = keysOf g (under f k l) := by
    refine eq_keysOf ?_ fun q => ?_
    · rw [List.pairwise_map]
      refine ((keysOf_sorted _ l).filter _).imp_of_mem fun {x y} hx hy hlt => ?_
      have hx := (mem_under.1 hx).2
      have hy := (mem_under.1 hy).2
      rcases Prod.Lex.lt_iff.1 hlt with h | h
      · rw [hx, hy] at h; exact absurd h (lt_irrefl k)
      · exact h.2
    · simp only [List.mem_map, mem_under, mem_keysOf]
      constructor
      · rintro ⟨_, ⟨⟨a, ha, rfl⟩, hk⟩, rfl⟩; exact ⟨a, ⟨ha, hk⟩, rfl⟩
      · rintro ⟨a, ⟨ha, hk⟩, rfl⟩; exact ⟨_, ⟨⟨a, ha, rfl⟩, hk⟩, rfl⟩
  rw [groupByKey_eq, groupByKey_eq, ← hkeys, under, List.filter_map, List.map_map, List.map_map,
    List.map_map]
  refine List.map_congr_left fun q hq => ?_
  have hq : (ofLex q).1 = k := of_decide_eq_true (List.mem_filter.1 hq).2
  simp only [Function.comp_apply, under]
  rw [List.filter_filter]
  refine List.filter_congr fun a _ => ?_
  rw [← Bool.decide_and]
  refine decide_eq_decide.2 ?_
  constructor
  · rintro rfl; exact ⟨rfl, hq⟩
  · rintro ⟨h₁, h₂⟩
    rw [← toLex_ofLex q]
    exact congrArg toLex (Prod.ext (h₂.trans hq.symm) h₁)

/-- In the order of the keys, the elements of a lowest key stand in front. -/
theorem filter_append_of_sorted {key : α → κ} {k : κ} : ∀ {l : List α},
    l.Pairwise (fun a b => key a ≤ key b) → (∀ a ∈ l, k ≤ key a) →
      l.filter (fun a => decide (key a = k)) ++ l.filter (fun a => decide (key a ≠ k)) = l
  | [], _, _ => rfl
  | a :: l, hl, hk => by
    obtain ⟨ha, hl⟩ := List.pairwise_cons.1 hl
    by_cases hak : key a = k
    · have := filter_append_of_sorted hl fun b hb => hk b (List.mem_cons_of_mem _ hb)
      simpa [hak] using this
    · have hlater : ∀ b ∈ a :: l, key b ≠ k := by
        intro b hb hbk
        have hab : key a ≤ key b := by
          rcases List.mem_cons.1 hb with rfl | hb
          · exact le_rfl
          · exact ha b hb
        exact hak (le_antisymm (hbk ▸ hab) (hk a List.mem_cons_self))
      have hnone : (a :: l).filter (fun b => decide (key b = k)) = [] :=
        List.filter_eq_nil_iff.2 fun b hb => by simpa using hlater b hb
      have hall : (a :: l).filter (fun b => decide (key b ≠ k)) = a :: l :=
        List.filter_eq_self.2 fun b hb => by simpa using hlater b hb
      rw [hnone, hall, List.nil_append]

/-- A list in the order of its keys is its groups one after the other. -/
theorem flatMap_groupByKey {key : α → κ} {l : List α} (hl : l.Pairwise fun a b => key a ≤ key b) :
    (groupByKey key l).flatMap Prod.snd = l := by
  -- over any ascending keys that cover the list
  have hcover : ∀ (ks : List κ) (l : List α), ks.Pairwise (· < ·) → (∀ a ∈ l, key a ∈ ks) →
      l.Pairwise (fun a b => key a ≤ key b) →
      (ks.flatMap fun k => l.filter fun a => decide (key a = k)) = l := by
    intro ks
    induction ks with
    | nil =>
      intro l _ hall _
      rw [List.flatMap_nil, List.eq_nil_iff_forall_not_mem.2 fun a ha => List.not_mem_nil (hall a ha)]
    | cons k ks ih =>
      intro l hks hall hl
      obtain ⟨hk, hks⟩ := List.pairwise_cons.1 hks
      have hlow : ∀ a ∈ l, k ≤ key a := fun a ha => by
        rcases List.mem_cons.1 (hall a ha) with h | h
        · exact le_of_eq h.symm
        · exact le_of_lt (hk _ h)
      have hrest := ih (l.filter fun a => decide (key a ≠ k)) hks
        (fun a ha => by
          obtain ⟨ha, hne⟩ := List.mem_filter.1 ha
          exact (List.mem_cons.1 (hall a ha)).resolve_left (by simpa using hne))
        (hl.filter _)
      have hothers : (ks.flatMap fun j => l.filter fun a => decide (key a = j)) =
          l.filter fun a => decide (key a ≠ k) := by
        rw [← hrest]
        refine List.flatMap_congr fun j hj => ?_
        rw [List.filter_filter]
        refine List.filter_congr fun a _ => ?_
        by_cases haj : key a = j
        · simp [haj, (hk j hj).ne']
        · simp [haj]
      rw [List.flatMap_cons, hothers, filter_append_of_sorted hl hlow]
  unfold groupByKey
  rw [List.flatMap_map]
  exact hcover _ l (keysOf_sorted key l) (fun a ha => mem_keysOf.2 ⟨a, ha, rfl⟩) hl

/-- Two groups have two elements of different keys. -/
theorem exists_ne_of_two_le {key : α → κ} {l : List α} (h : 2 ≤ (keysOf key l).length) :
    ∃ a ∈ l, ∃ b ∈ l, key a ≠ key b := by
  match hks : keysOf key l, h with
  | j :: k :: ks, _ =>
    have hne : j ≠ k := by
      have hnd := nodup_keysOf key l
      rw [hks] at hnd
      exact fun he => (List.nodup_cons.1 hnd).1 (he ▸ List.mem_cons_self)
    have hj : j ∈ keysOf key l := by rw [hks]; exact List.mem_cons_self
    have hk : k ∈ keysOf key l := by rw [hks]; exact List.mem_cons_of_mem _ List.mem_cons_self
    obtain ⟨a, ha, haj⟩ := mem_keysOf.1 hj
    obtain ⟨b, hb, hbk⟩ := mem_keysOf.1 hk
    exact ⟨a, ha, b, hb, by rw [haj, hbk]; exact hne⟩

theorem length_groupByKey (key : α → κ) (l : List α) :
    (groupByKey key l).length = (keysOf key l).length := by
  rw [groupByKey, List.length_map]

/-- No element is lost and none counted twice. -/
theorem sum_length_groupByKey (key : α → κ) (l : List α) :
    ((groupByKey key l).map fun g => g.2.length).sum = l.length := by
  have hsorted : (l.insertionSort fun a b => key a ≤ key b).Pairwise fun a b => key a ≤ key b := by
    have : Std.Total fun a b : α => key a ≤ key b := ⟨fun a b => le_total _ _⟩
    have : IsTrans α fun a b : α => key a ≤ key b := ⟨fun _ _ _ => le_trans⟩
    exact List.pairwise_insertionSort _ _
  have hperm := List.perm_insertionSort (fun a b : α => key a ≤ key b) l
  have hkeys : keysOf key (l.insertionSort fun a b => key a ≤ key b) = keysOf key l :=
    eq_keysOf (keysOf_sorted _ _) fun k => by simp [mem_keysOf, hperm.mem_iff]
  have hlen := congrArg List.length (flatMap_groupByKey hsorted)
  rw [List.length_flatMap, hperm.length_eq] at hlen
  rw [← hlen]
  unfold groupByKey
  rw [hkeys, List.map_map, List.map_map]
  refine congrArg List.sum (List.map_congr_left fun k _ => ?_)
  exact (hperm.filter _).length_eq.symm

theorem groupByKey_map {β : Type} (key : β → κ) (f : α → β) (l : List α) :
    groupByKey key (l.map f) = (groupByKey (key ∘ f) l).map fun g => (g.1, g.2.map f) := by
  have hkeys : keysOf key (l.map f) = keysOf (key ∘ f) l := by
    rw [keysOf, keysOf, List.map_map]
  rw [groupByKey_eq, groupByKey_eq, hkeys, List.map_map]
  refine List.map_congr_left fun k _ => ?_
  simp only [Function.comp_apply, under, List.filter_map]
  rfl

/-- A list in another order has the same groups as far as a value that no order changes tells. -/
theorem groupByKey_perm {γ : Type} {key : α → κ} {w : List α → γ}
    (hw : ∀ as bs : List α, as.Perm bs → w as = w bs) {l l' : List α} (h : l.Perm l') :
    (groupByKey key l).map (fun g => w g.2) = (groupByKey key l').map fun g => w g.2 := by
  have hkeys : keysOf key l = keysOf key l' :=
    eq_keysOf (keysOf_sorted _ _) fun k => by simp [mem_keysOf, h.mem_iff]
  rw [groupByKey_eq, groupByKey_eq, hkeys, List.map_map, List.map_map]
  exact List.map_congr_left fun k _ => hw _ _ (h.filter _)

/-- The groups are the classes of the elements. -/
theorem mem_groups {key : α → κ} {l as : List α} :
    as ∈ (groupByKey key l).map Prod.snd ↔ ∃ a ∈ l, as = under key (key a) l := by
  rw [groupByKey_eq, List.map_map, List.mem_map]
  constructor
  · rintro ⟨k, hk, rfl⟩
    obtain ⟨a, ha, rfl⟩ := mem_keysOf.1 hk
    exact ⟨a, ha, rfl⟩
  · rintro ⟨a, ha, rfl⟩
    exact ⟨key a, mem_keysOf.2 ⟨a, ha, rfl⟩, rfl⟩

theorem nodup_groups (key : α → κ) (l : List α) : ((groupByKey key l).map Prod.snd).Nodup := by
  rw [groupByKey_eq, List.map_map]
  refine List.Nodup.map_on (fun k hk k' _ heq => ?_) (nodup_keysOf key l)
  obtain ⟨a, ha, rfl⟩ := mem_keysOf.1 hk
  have heq : under key (key a) l = under key k' l := heq
  exact (mem_under.1 (heq ▸ mem_under.2 ⟨ha, rfl⟩)).2

/-- Keys that tell the same elements apart make the same groups. -/
theorem groupByKey_rekey {κ' : Type} [LinearOrder κ'] {f : α → κ} {g : α → κ'} {l : List α}
    (h : ∀ a ∈ l, ∀ b ∈ l, f a = f b ↔ g a = g b) :
    ((groupByKey f l).map Prod.snd).Perm ((groupByKey g l).map Prod.snd) := by
  have hclass : ∀ a ∈ l, under f (f a) l = under g (g a) l := fun a ha =>
    List.filter_congr fun b hb => decide_eq_decide.2 (h b hb a ha)
  rw [List.perm_ext_iff_of_nodup (nodup_groups f l) (nodup_groups g l)]
  intro as
  rw [mem_groups, mem_groups]
  constructor
  · rintro ⟨a, ha, rfl⟩; exact ⟨a, ha, hclass a ha⟩
  · rintro ⟨a, ha, rfl⟩; exact ⟨a, ha, (hclass a ha).symm⟩

end Grouping
