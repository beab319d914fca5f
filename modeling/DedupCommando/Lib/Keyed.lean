import DedupCommando.Lib.OrdMap

/-!
# Tables and maps by key

* `replace`, `mem_foldl_replace` — INSERT OR REPLACE: a row takes the place of the row of its key.
* `foldl_replace_covers` — rows written over rows whose keys they all have are all that is left.
* `OrdMap.Alike` — two maps with the same keys and related values; `Alike.insert`, `Alike.get?`.
* `Alike.sublist` — what is picked from one is picked from the other.
-/

set_option autoImplicit false

namespace Keyed

variable {α κ : Type} [DecidableEq κ] (key : α → κ)

/-- The row is there, and no other row of its key. -/
def replace (rows : List α) (row : α) : List α :=
  (rows.filter fun r => decide (key r ≠ key row)) ++ [row]

@[simp]
theorem mem_replace {rows : List α} {row r : α} :
    r ∈ replace key rows row ↔ r ∈ rows ∧ key r ≠ key row ∨ r = row := by
  simp [replace]

/-- Rows that are one row under one key, written over a table. -/
theorem mem_foldl_replace : ∀ {new : List α},
    (∀ a ∈ new, ∀ b ∈ new, key a = key b → a = b) → ∀ {rows : List α} {r : α},
      r ∈ new.foldl (replace key) rows ↔ r ∈ new ∨ r ∈ rows ∧ ∀ a ∈ new, key a ≠ key r
  | [], _, rows, r => by simp
  | a :: new, hone, rows, r => by
    have hrest : ∀ b ∈ new, ∀ c ∈ new, key b = key c → b = c := fun b hb c hc =>
      hone b (List.mem_cons_of_mem a hb) c (List.mem_cons_of_mem a hc)
    rw [List.foldl_cons, mem_foldl_replace hrest, mem_replace, List.mem_cons,
      List.forall_mem_cons]
    constructor
    · rintro (h | ⟨⟨h, hne⟩ | rfl, hnew⟩)
      · exact .inl (.inr h)
      · exact .inr ⟨h, Ne.symm hne, hnew⟩
      · exact .inl (.inl rfl)
    · rintro ((rfl | h) | ⟨h, hne, hnew⟩)
      · by_cases hin : r ∈ new
        · exact .inl hin
        · refine .inr ⟨.inr rfl, fun b hb he => hin ?_⟩
          rw [← hone b (List.mem_cons_of_mem r hb) r List.mem_cons_self he]
          exact hb
      · exact .inl h
      · exact .inr ⟨.inl ⟨h, Ne.symm hne⟩, hnew⟩

/-- **Written over rows whose keys are all among theirs, they are all that is left.** -/
theorem foldl_replace_covers {new rows : List α}
    (hone : ∀ a ∈ new, ∀ b ∈ new, key a = key b → a = b)
    (hcovers : ∀ r ∈ rows, ∃ a ∈ new, key a = key r) {r : α} :
    r ∈ new.foldl (replace key) rows ↔ r ∈ new := by
  rw [mem_foldl_replace key hone, or_iff_left_iff_imp]
  rintro ⟨hr, hnone⟩
  obtain ⟨a, ha, he⟩ := hcovers r hr
  exact absurd he (hnone a ha)

end Keyed

namespace OrdMap

variable {κ α β : Type} [LinearOrder κ]

/-- The keys of two maps are the same, and the values under each of them are related. -/
def Alike (R : α → α → Prop) (m m' : OrdMap κ α) : Prop :=
  List.Forall₂ (fun e e' => e.1 = e'.1 ∧ R e.2 e'.2) m.entries m'.entries

namespace Alike

variable {R : α → α → Prop} {m m' : OrdMap κ α}

theorem empty : Alike R (OrdMap.empty : OrdMap κ α) OrdMap.empty := .nil

theorem find {k : κ} {es es' : List (κ × α)}
    (h : List.Forall₂ (fun e e' => e.1 = e'.1 ∧ R e.2 e'.2) es es') :
    Option.Rel R ((es.find? fun e => decide (e.1 = k)).map Prod.snd)
      ((es'.find? fun e => decide (e.1 = k)).map Prod.snd) := by
  induction h with
  | nil => exact .none
  | @cons e e' es es' he _ ih =>
    by_cases hk : e.1 = k
    · have hk' : e'.1 = k := he.1 ▸ hk
      simpa [hk, hk'] using Option.Rel.some he.2
    · have hk' : ¬e'.1 = k := he.1 ▸ hk
      simpa [hk, hk'] using ih

theorem get? (h : Alike R m m') (k : κ) : Option.Rel R (m.get? k) (m'.get? k) := find h

theorem insertEntry {k : κ} {v v' : α} (hv : R v v') {es es' : List (κ × α)}
    (h : List.Forall₂ (fun e e' => e.1 = e'.1 ∧ R e.2 e'.2) es es') :
    List.Forall₂ (fun e e' => e.1 = e'.1 ∧ R e.2 e'.2) (OrdMap.insertEntry k v es)
      (OrdMap.insertEntry k v' es') := by
  induction h with
  | nil => exact .cons ⟨rfl, hv⟩ .nil
  | @cons e e' es es' he hes ih =>
    unfold OrdMap.insertEntry
    rw [← he.1]
    split
    · exact .cons ⟨rfl, hv⟩ (.cons he hes)
    · split
      · exact .cons ⟨rfl, hv⟩ hes
      · exact .cons he ih

theorem insert (h : Alike R m m') (k : κ) {v v' : α} (hv : R v v') :
    Alike R (m.insert k v) (m'.insert k v') := insertEntry hv h

/-- **What is picked from the entries of one map is picked from the other**, where related values
are picked alike. -/
theorem sublist (h : Alike R m m') {pick : κ × α → Option β}
    (hpick : ∀ k v v' b, R v v' → pick (k, v) = some b → pick (k, v') = some b) :
    (m.entries.filterMap pick).Sublist (m'.entries.filterMap pick) := by
  unfold Alike at h
  generalize m.entries = es, m'.entries = es' at h
  induction h with
  | nil => exact .refl _
  | @cons e e' es es' he _ ih =>
    obtain ⟨k, v⟩ := e
    obtain ⟨k', v'⟩ := e'
    obtain ⟨hk, hv⟩ := he
    obtain rfl : k = k' := hk
    cases hb : pick (k, v) with
    | none =>
      rw [List.filterMap_cons_none hb]
      cases hb' : pick (k, v') with
      | none => rwa [List.filterMap_cons_none hb']
      | some b => rw [List.filterMap_cons_some hb']; exact ih.cons b
    | some b =>
      rw [List.filterMap_cons_some hb, List.filterMap_cons_some (hpick k v v' b hv hb)]
      exact ih.cons_cons b

end Alike

end OrdMap
