import Mathlib

/-!
# Spreading along a partial equivalence

Some elements are marked, and a mark is passed on to every element of the table that is related to a
marked one.  One pass along a symmetric and transitive relation reaches everything, so passing a
mark on early, or along a part of the relation only, changes nothing about where a last pass ends.

* `spread` — one pass, as a closure operator.
* `spread_eq_of_between` — whatever lies between a set and its spread has the same spread.
-/

set_option autoImplicit false

namespace Spread

variable {α : Type} (table known : Set α) (same : α → α → Prop)

/-- The elements of the table that are related to one that is marked. -/
def reached (marked : Set α) : Set α :=
  {a | a ∈ table ∧ ∃ b, (b ∈ known ∨ b ∈ marked) ∧ same b a}

/-- One pass over the table. -/
def spread (htrans : ∀ {a b c}, same a b → same b c → same a c) : ClosureOperator (Set α) :=
  ClosureOperator.mk' (fun marked => marked ∪ reached table known same marked)
    (by
      rintro s t hst a (ha | ⟨ha, b, hb, hsame⟩)
      · exact .inl (hst ha)
      · exact .inr ⟨ha, b, hb.imp_right (@hst b), hsame⟩)
    (fun s => Set.subset_union_left)
    (by
      rintro s a (ha | ⟨ha, b, hb, hsame⟩)
      · exact ha
      · rcases hb with hb | hb | ⟨-, c, hc, hcb⟩
        · exact .inr ⟨ha, b, .inl hb, hsame⟩
        · exact .inr ⟨ha, b, .inr hb, hsame⟩
        · exact .inr ⟨ha, c, hc, htrans hcb hsame⟩)

variable {table known same} {htrans : ∀ {a b c}, same a b → same b c → same a c}

theorem mem_spread {s : Set α} {a : α} :
    a ∈ spread table known same htrans s ↔ a ∈ s ∨ a ∈ reached table known same s := Iff.rfl

/-- **A last pass undoes the difference**: what lies between a set and its spread spreads alike. -/
theorem spread_eq_of_between {s t : Set α} (hst : s ⊆ t)
    (hts : t ⊆ spread table known same htrans s) :
    spread table known same htrans t = spread table known same htrans s :=
  le_antisymm (ClosureOperator.le_closure_iff.1 hts)
    ((spread table known same htrans).monotone hst)

end Spread
