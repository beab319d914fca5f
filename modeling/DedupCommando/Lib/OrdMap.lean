import Mathlib

/-!
# Ordered maps

A finite map as the list of its entries in ascending order of the keys, the way a B-tree map is
iterated.

* `OrdMap` — the entries, with their order as a field.
* `get?`, `insert`, `erase`, `filter`, `range` — lookup, replacement, and the entries of a half-open key interval.
* `get?_insert`, `mem_entries`, `ext_get?` — a map is what its lookups say.
* `sum_insert`, `sum_single` — sums over the entries.
-/

set_option autoImplicit false

/-- A finite map; the keys of its entries ascend. -/
structure OrdMap (κ α : Type) [LinearOrder κ] where
  entries : List (κ × α)
  sorted : entries.Pairwise fun a b => a.1 < b.1

namespace OrdMap

variable {κ α : Type} [LinearOrder κ]

instance [DecidableEq α] : DecidableEq (OrdMap κ α) := fun m n =>
  decidable_of_iff (m.entries = n.entries)
    ⟨fun h => by cases m; cases n; simp_all, fun h => h ▸ rfl⟩

def empty : OrdMap κ α := ⟨[], List.Pairwise.nil⟩

def get? (m : OrdMap κ α) (k : κ) : Option α :=
  (m.entries.find? fun e => decide (e.1 = k)).map Prod.snd

def contains (m : OrdMap κ α) (k : κ) : Bool := (m.get? k).isSome

def keys (m : OrdMap κ α) : List κ := m.entries.map Prod.fst

def values (m : OrdMap κ α) : List α := m.entries.map Prod.snd

/-- The entries with `lo ≤ key < hi`, ascending. -/
def range (m : OrdMap κ α) (lo hi : κ) : List (κ × α) :=
  m.entries.filter fun e => decide (lo ≤ e.1 ∧ e.1 < hi)

/-- One entry into an ascending list, in place of an entry of the same key. -/
def insertEntry (k : κ) (v : α) : List (κ × α) → List (κ × α)
  | [] => [(k, v)]
  | e :: es =>
    if k < e.1 then (k, v) :: e :: es
    else if k = e.1 then (k, v) :: es
    else e :: insertEntry k v es

theorem mem_insertEntry {k : κ} {v : α} {e : κ × α} :
    ∀ {es : List (κ × α)}, es.Pairwise (fun a b => a.1 < b.1) →
      (e ∈ insertEntry k v es ↔ e = (k, v) ∨ (e ∈ es ∧ e.1 ≠ k))
  | [], _ => by simp [insertEntry]
  | a :: es, h => by
    obtain ⟨ha, hes⟩ := List.pairwise_cons.1 h
    unfold insertEntry
    split
    · rename_i hlt
      have hne : ∀ x ∈ a :: es, x.1 ≠ k := by
        intro x hx
        rcases List.mem_cons.1 hx with rfl | hx
        · exact hlt.ne'
        · exact (hlt.trans (ha x hx)).ne'
      rw [List.mem_cons]
      exact or_congr_right ⟨fun hx => ⟨hx, hne e hx⟩, And.left⟩
    · split
      · rename_i hlt heq
        subst heq
        rw [List.mem_cons, List.mem_cons]
        constructor
        · rintro (he | he)
          · exact .inl he
          · exact .inr ⟨.inr he, (ha e he).ne'⟩
        · rintro (he | ⟨rfl | he, hne⟩)
          · exact .inl he
          · exact absurd rfl hne
          · exact .inr he
      · rename_i hlt hne
        rw [List.mem_cons, mem_insertEntry hes, List.mem_cons]
        constructor
        · rintro (rfl | he | ⟨he, hk⟩)
          · exact .inr ⟨.inl rfl, Ne.symm hne⟩
          · exact .inl he
          · exact .inr ⟨.inr he, hk⟩
        · rintro (he | ⟨rfl | he, hk⟩)
          · exact .inr (.inl he)
          · exact .inl rfl
          · exact .inr (.inr ⟨he, hk⟩)

theorem insertEntry_sorted {k : κ} {v : α} :
    ∀ {es : List (κ × α)}, es.Pairwise (fun a b => a.1 < b.1) →
      (insertEntry k v es).Pairwise fun a b => a.1 < b.1
  | [], _ => by simp [insertEntry]
  | a :: es, h => by
    obtain ⟨ha, hes⟩ := List.pairwise_cons.1 h
    unfold insertEntry
    split
    · rename_i hlt
      refine List.pairwise_cons.2 ⟨fun x hx => ?_, h⟩
      rcases List.mem_cons.1 hx with rfl | hx
      · exact hlt
      · exact hlt.trans (ha x hx)
    · split
      · rename_i hlt heq
        subst heq
        exact List.pairwise_cons.2 ⟨ha, hes⟩
      · rename_i hlt hne
        refine List.pairwise_cons.2 ⟨fun x hx => ?_, insertEntry_sorted hes⟩
        rcases (mem_insertEntry hes).1 hx with rfl | ⟨hx, -⟩
        · exact lt_of_le_of_ne (not_lt.1 hlt) (Ne.symm hne)
        · exact ha x hx

/-- `insert`: the value of `k` becomes `v`. -/
def insert (m : OrdMap κ α) (k : κ) (v : α) : OrdMap κ α :=
  ⟨insertEntry k v m.entries, insertEntry_sorted m.sorted⟩

/-- The entries that satisfy `p`. -/
def filter (m : OrdMap κ α) (p : κ × α → Bool) : OrdMap κ α :=
  ⟨m.entries.filter p, m.sorted.filter p⟩

/-- `remove`: no value under `k`. -/
def erase (m : OrdMap κ α) (k : κ) : OrdMap κ α := m.filter fun e => decide (e.1 ≠ k)

/-! ## What the lookups say -/

theorem keys_nodup (m : OrdMap κ α) : m.keys.Nodup := by
  rw [keys, List.nodup_iff_pairwise_ne, List.pairwise_map]
  exact m.sorted.imp fun h => h.ne

theorem mem_entries {m : OrdMap κ α} {k : κ} {v : α} :
    (k, v) ∈ m.entries ↔ m.get? k = some v := by
  unfold get?
  obtain ⟨es, hs⟩ := m
  induction es with
  | nil => simp
  | cons e es ih =>
    obtain ⟨ha, hes⟩ := List.pairwise_cons.1 hs
    rw [List.mem_cons]
    by_cases hk : e.1 = k
    · rw [List.find?_cons_of_pos (by simpa using hk)]
      constructor
      · rintro (rfl | h)
        · rfl
        · exact absurd (ha _ h) (by simp [hk])
      · rintro h
        exact .inl (Prod.ext hk.symm (Option.some.inj h).symm)
    · rw [List.find?_cons_of_neg (by simpa using hk), ← ih hes]
      constructor
      · rintro (rfl | h)
        · exact absurd rfl hk
        · exact h
      · exact .inr

@[simp]
theorem get?_empty (k : κ) : (empty : OrdMap κ α).get? k = none := rfl

theorem get?_insert (m : OrdMap κ α) (k k' : κ) (v : α) :
    (m.insert k v).get? k' = if k' = k then some v else m.get? k' := by
  apply Option.ext
  intro w
  rw [← mem_entries]
  change (k', w) ∈ insertEntry k v m.entries ↔ _
  rw [mem_insertEntry m.sorted, Prod.mk.injEq]
  split
  · rename_i h
    simp [h, eq_comm]
  · rename_i h
    rw [mem_entries]
    simp [h]

@[simp]
theorem get?_insert_self (m : OrdMap κ α) (k : κ) (v : α) : (m.insert k v).get? k = some v := by
  rw [get?_insert, if_pos rfl]

theorem mem_filter {m : OrdMap κ α} {p : κ × α → Bool} {k : κ} {v : α} :
    (m.filter p).get? k = some v ↔ m.get? k = some v ∧ p (k, v) = true := by
  rw [← mem_entries, ← mem_entries]
  exact List.mem_filter

theorem get?_erase (m : OrdMap κ α) (k k' : κ) :
    (m.erase k).get? k' = if k' = k then none else m.get? k' := by
  apply Option.ext
  intro v
  rw [erase, mem_filter]
  split
  · rename_i h
    simp [h]
  · rename_i h
    simp [h]

theorem contains_iff {m : OrdMap κ α} {k : κ} : m.contains k = true ↔ k ∈ m.keys := by
  unfold contains keys
  rw [Option.isSome_iff_exists, List.mem_map]
  exact ⟨fun ⟨v, hv⟩ => ⟨(k, v), mem_entries.2 hv, rfl⟩,
    fun ⟨⟨_, v⟩, hm, hk⟩ => ⟨v, mem_entries.1 (hk ▸ hm)⟩⟩

theorem get?_eq_none {m : OrdMap κ α} {k : κ} : m.get? k = none ↔ k ∉ m.keys := by
  rw [← contains_iff, contains]
  cases m.get? k <;> simp

theorem mem_keys_insert {m : OrdMap κ α} {k k' : κ} {v : α} :
    k' ∈ (m.insert k v).keys ↔ k' = k ∨ k' ∈ m.keys := by
  rw [← contains_iff, ← contains_iff, contains, contains, get?_insert]
  split
  · rename_i h; simp [h]
  · rename_i h; simp [h]

theorem mem_range {m : OrdMap κ α} {lo hi : κ} {e : κ × α} :
    e ∈ m.range lo hi ↔ m.get? e.1 = some e.2 ∧ lo ≤ e.1 ∧ e.1 < hi := by
  rw [range, List.mem_filter, ← mem_entries, decide_eq_true_eq]

/-- Maps with the same lookups are the same. -/
theorem ext_get? {m n : OrdMap κ α} (h : ∀ k, m.get? k = n.get? k) : m = n := by
  have hp : m.entries.Perm n.entries := by
    refine (List.perm_ext_iff_of_nodup ?_ ?_).2 fun e => ?_
    · exact List.Nodup.of_map _ m.keys_nodup
    · exact List.Nodup.of_map _ n.keys_nodup
    · obtain ⟨k, v⟩ := e
      rw [mem_entries, mem_entries, h k]
  have hirrefl : ∀ a b : κ × α, a ∈ m.entries → b ∈ n.entries → a.1 < b.1 → b.1 < a.1 → a = b :=
    fun a b _ _ hab hba => absurd (hab.trans hba) (lt_irrefl _)
  have he := hp.eq_of_pairwise hirrefl m.sorted n.sorted
  cases m; cases n; simp_all

theorem entries_nodup (m : OrdMap κ α) : m.entries.Nodup := List.Nodup.of_map _ m.keys_nodup

/-- A new entry joins the entries. -/
theorem entries_insert {m : OrdMap κ α} {k : κ} (h : m.get? k = none) (v : α) :
    (m.insert k v).entries.Perm ((k, v) :: m.entries) := by
  have hnew : (k, v) ∉ m.entries := by
    rw [mem_entries, h]
    simp
  refine (List.perm_ext_iff_of_nodup (entries_nodup _)
    (List.nodup_cons.2 ⟨hnew, m.entries_nodup⟩)).2 ?_
  rintro ⟨k', v'⟩
  rw [mem_entries, get?_insert, List.mem_cons, mem_entries, Prod.mk.injEq]
  split
  · rename_i hk
    subst hk
    simp [h, eq_comm]
  · rename_i hk
    simp [hk]

/-- An erased entry leaves the entries. -/
theorem entries_erase {m : OrdMap κ α} {k : κ} {v : α} (h : m.get? k = some v) :
    m.entries.Perm ((k, v) :: (m.erase k).entries) := by
  have hgone : (k, v) ∉ (m.erase k).entries := by
    rw [mem_entries, get?_erase, if_pos rfl]
    simp
  refine (List.perm_ext_iff_of_nodup m.entries_nodup
    (List.nodup_cons.2 ⟨hgone, entries_nodup _⟩)).2 ?_
  rintro ⟨k', v'⟩
  rw [mem_entries, List.mem_cons, mem_entries, get?_erase, Prod.mk.injEq]
  split
  · rename_i hk
    subst hk
    simp [h, eq_comm]
  · rename_i hk
    simp [hk]

theorem mem_values {m : OrdMap κ α} {v : α} : v ∈ m.values ↔ ∃ k, m.get? k = some v := by
  unfold values
  rw [List.mem_map]
  constructor
  · rintro ⟨⟨k, w⟩, hm, rfl⟩
    exact ⟨k, mem_entries.1 hm⟩
  · rintro ⟨k, hk⟩
    exact ⟨(k, v), mem_entries.2 hk, rfl⟩

/-! ## Sums over the entries -/

/-- Putting `v` under `k` trades what was there for `v`. -/
theorem sum_insert (m : OrdMap κ α) (k : κ) (v : α) (f : κ × α → ℕ) :
    ((m.insert k v).entries.map f).sum + (m.get? k).elim 0 (fun w => f (k, w)) =
      (m.entries.map f).sum + f (k, v) := by
  obtain ⟨es, hs⟩ := m
  change ((insertEntry k v es).map f).sum + _ = _
  have key : ∀ es : List (κ × α), es.Pairwise (fun a b => a.1 < b.1) →
      ((insertEntry k v es).map f).sum +
        ((es.find? fun e => decide (e.1 = k)).map Prod.snd).elim 0 (fun w => f (k, w)) =
      (es.map f).sum + f (k, v) := by
    intro es
    induction es with
    | nil => intro _; simp [insertEntry]
    | cons e es ih =>
      intro hs
      obtain ⟨he, hes⟩ := List.pairwise_cons.1 hs
      unfold insertEntry
      split
      · rename_i hlt
        have hnone : (e :: es).find? (fun e => decide (e.1 = k)) = none := by
          rw [List.find?_eq_none]
          intro x hx
          rcases List.mem_cons.1 hx with rfl | hx
          · simpa using hlt.ne'
          · simpa using (hlt.trans (he x hx)).ne'
        rw [hnone]
        simp only [List.map_cons, List.sum_cons, Option.map_none, Option.elim_none]
        omega
      · split
        · rename_i hlt heq
          subst heq
          rw [List.find?_cons_of_pos (by simp)]
          have hpair : f (e.1, e.2) = f e := rfl
          simp only [List.map_cons, List.sum_cons, Option.map_some, Option.elim_some, hpair]
          omega
        · rename_i hlt hne
          rw [List.find?_cons_of_neg (by simpa using Ne.symm hne)]
          have ih := ih hes
          simp only [List.map_cons, List.sum_cons]
          omega
  exact key es hs

/-- Only the entry of `k` counts. -/
theorem sum_single (m : OrdMap κ α) (k : κ) (g : α → ℕ) {_ : ∀ e : κ × α, Decidable (e.1 = k)} :
    (m.entries.map fun e => if e.1 = k then g e.2 else 0).sum = (m.get? k).elim 0 g := by
  obtain ⟨es, hs⟩ := m
  unfold get?
  induction es with
  | nil => rfl
  | cons e es ih =>
    obtain ⟨he, hes⟩ := List.pairwise_cons.1 hs
    have ih := ih hes
    simp only at ih
    rw [List.map_cons, List.sum_cons, ih]
    by_cases hk : e.1 = k
    · have hnone : ∀ x ∈ es, x.1 ≠ k := fun x hx hx' => (he x hx).ne (hk.trans hx'.symm)
      rw [List.find?_cons_of_pos (by simpa using hk), if_pos hk, List.find?_eq_none.2
        fun x hx => by simpa using hnone x hx]
      rfl
    · rw [List.find?_cons_of_neg (by simpa using hk), if_neg hk, Nat.zero_add]

theorem sum_range (m : OrdMap κ α) (lo hi : κ) (f : κ × α → ℕ)
    {_ : ∀ e : κ × α, Decidable (lo ≤ e.1 ∧ e.1 < hi)} :
    ((m.range lo hi).map f).sum =
      (m.entries.map fun e => if lo ≤ e.1 ∧ e.1 < hi then f e else 0).sum := by
  unfold range
  induction m.entries with
  | nil => rfl
  | cons e es ih =>
    by_cases he : lo ≤ e.1 ∧ e.1 < hi
    · rw [List.filter_cons_of_pos (by simpa using he)]
      simp only [List.map_cons, List.sum_cons, ih, if_pos he]
    · rw [List.filter_cons_of_neg (by simpa using he), ih]
      simp only [List.map_cons, List.sum_cons, if_neg he, Nat.zero_add]

end OrdMap
