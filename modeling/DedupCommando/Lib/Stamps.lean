import Mathlib

/-!
# Stamps

A value that may change at any moment, with a stamp beside it: every change brings a stamp that was
never there before.  A reader who takes the value piece by piece looks at the stamp before and
behind.

* `Stamped` — a step keeps the value and the stamp, or brings a fresh stamp.
* `Stamped.stays` — **one stamp at two moments is one value in between**.
* `Stamped.switch` — one change is one fresh stamp.
-/

set_option autoImplicit false

namespace DedupCommando

/-! ## One stamp, one value -/

section Stamped

variable {α β : Type*}

/-- Every step keeps the value with its stamp, or brings a stamp that was never there before. -/
def Stamped (value : ℕ → α) (stamp : ℕ → β) : Prop :=
  ∀ n, (value (n + 1) = value n ∧ stamp (n + 1) = stamp n) ∨ ∀ k, k ≤ n → stamp (n + 1) ≠ stamp k

namespace Stamped

variable {value : ℕ → α} {stamp : ℕ → β}

/-- Either nothing has moved since `i`, or the stamp of `i` is gone. -/
theorem stays_or_gone (h : Stamped value stamp) (i d : ℕ) :
    (∀ k, i ≤ k → k ≤ i + d → value k = value i ∧ stamp k = stamp i) ∨
      stamp (i + d) ≠ stamp i := by
  induction d with
  | zero =>
    left
    intro k hik hki
    obtain rfl : k = i := by omega
    exact ⟨rfl, rfl⟩
  | succ d ih =>
    rcases h (i + d) with ⟨hv, hs⟩ | hfresh
    · rcases ih with hall | hgone
      · left
        intro k hik hki
        by_cases hlast : k = i + d + 1
        · subst hlast
          obtain ⟨hv', hs'⟩ := hall (i + d) (by omega) (by omega)
          exact ⟨hv.trans hv', hs.trans hs'⟩
        · exact hall k hik (by omega)
      · right
        show stamp (i + d + 1) ≠ stamp i
        rw [hs]
        exact hgone
    · right
      exact hfresh i (by omega)

/-- **A stamp met twice**: nothing has moved in between. -/
theorem stays (h : Stamped value stamp) {i j : ℕ} (hij : i ≤ j) (heq : stamp j = stamp i) {k : ℕ}
    (hik : i ≤ k) (hkj : k ≤ j) : value k = value i ∧ stamp k = stamp i := by
  obtain ⟨d, rfl⟩ := Nat.exists_eq_add_of_le hij
  rcases h.stays_or_gone i d with hall | hgone
  · exact hall k hik hkj
  · exact absurd heq hgone

/-- One change, with a fresh stamp. -/
theorem switch {a a' : α} {b b' : β} (hb : b' ≠ b) (m : ℕ) :
    Stamped (fun n => if n < m then a else a') (fun n => if n < m then b else b') := by
  intro n
  by_cases hlast : n + 1 = m
  · right
    intro k hk
    simp only [if_neg (show ¬ n + 1 < m by omega), if_pos (show k < m by omega)]
    exact hb
  · left
    by_cases h : n < m
    · simp only [if_pos h, if_pos (show n + 1 < m by omega), and_self]
    · simp only [if_neg h, if_neg (show ¬ n + 1 < m by omega), and_self]

end Stamped

end Stamped

end DedupCommando
