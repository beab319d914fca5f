import DedupCommando.Lib.Grouping
import Mathlib.Algebra.BigOperators.Group.List.Basic

/-!
# Counts and sums over groups

Figures that are summed over the groups of a list, while what the elements hold changes and their
keys do not.

* `under_map`, `keysOf_map_of` — the groups of a changed list.
* `sum_countP_under` — counts over groups are one count over the list.
* `sum_map_eq_add` — a sum of which one summand changes.
-/

set_option autoImplicit false

namespace Grouping

variable {α κ : Type} [LinearOrder κ]

/-- Changing the elements of a list without their keys keeps its keys. -/
theorem keysOf_map_of {key : α → κ} {f : α → α} {l : List α} (h : ∀ a ∈ l, key (f a) = key a) :
    keysOf key (l.map f) = keysOf key l := by
  unfold keysOf
  have hkeys : l.map (key ∘ f) = l.map key := List.map_congr_left h
  rw [List.map_map, hkeys]

theorem under_map_of {key : α → κ} {f : α → α} {l : List α} (h : ∀ a ∈ l, key (f a) = key a)
    (k : κ) : under key k (l.map f) = (under key k l).map f := by
  unfold under
  rw [List.filter_map]
  refine congrArg (List.map f) (List.filter_congr fun a ha => ?_)
  rw [Function.comp_apply, h a ha]

/-- Counts over the elements of each of some keys are one count over all of them. -/
theorem sum_countP_under {key : α → κ} (p : α → Bool) (l : List α) : ∀ {ks : List κ}, ks.Nodup →
    (ks.map fun k => (under key k l).countP p).sum = l.countP fun a => p a && decide (key a ∈ ks)
  | [], _ => by
    rw [List.map_nil, List.sum_nil, List.countP_eq_zero.2]
    simp
  | k :: ks, h => by
    obtain ⟨hk, hks⟩ := List.nodup_cons.1 h
    rw [List.map_cons, List.sum_cons, sum_countP_under p l hks]
    induction l with
    | nil => rfl
    | cons a l ih =>
      unfold under at ih ⊢
      rw [List.countP_cons, List.countP_cons, ← ih, List.filter_cons]
      by_cases ha : key a = k
      · subst ha
        cases hp : p a
        · simp [hp]
        · simp [hp, hk]
          omega
      · cases hp : p a
        · simp [ha]
        · simp [ha]
          split
          · omega
          · rfl

omit [LinearOrder κ] in
/-- A sum of which one summand grows. -/
theorem sum_map_eq_add {l : List κ} {f f' : κ → ℕ} {a : κ} {n : ℕ}
    (hnd : l.Nodup) (ha : a ∈ l) (hgrows : f' a = f a + n) (hrest : ∀ b ∈ l, b ≠ a → f' b = f b) :
    (l.map f').sum = (l.map f).sum + n := by
  induction l with
  | nil => cases ha
  | cons b l ih =>
    obtain ⟨hb, hl⟩ := List.nodup_cons.1 hnd
    rw [List.map_cons, List.map_cons, List.sum_cons, List.sum_cons]
    rcases List.mem_cons.1 ha with rfl | hal
    · have hsame : l.map f' = l.map f := List.map_congr_left fun c hc =>
        hrest c (List.mem_cons_of_mem _ hc) fun he => hb (he ▸ hc)
      rw [hsame, hgrows]
      omega
    · have hba : b ≠ a := fun he => hb (he ▸ hal)
      rw [ih hl hal fun c hc => hrest c (List.mem_cons_of_mem _ hc), hrest b List.mem_cons_self hba]
      omega

end Grouping
