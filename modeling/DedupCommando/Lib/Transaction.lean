import Mathlib.Tactic.TypeStar

/-!
# Transactions

A computation on a store that may stop with an error in the middle of its writes, and the
transaction around it, which keeps the writes only when it did not.

* `Tx` — a result, and the store as the computation left it.
* `atomically` — commit on success, roll back on error.
* `atomically_cases` — what a transaction can do.
-/

set_option autoImplicit false

/-- A computation on a store: its result, and the store behind its writes. -/
abbrev Tx (σ ε α : Type) := σ → Except ε α × σ

namespace Tx

variable {σ ε α : Type}

/-- Runs `body`; an error takes its writes back. -/
def atomically (body : Tx σ ε α) : Tx σ ε α := fun s =>
  match body s with
  | (.ok a, s') => (.ok a, s')
  | (.error e, _) => (.error e, s)

theorem atomically_ok {body : Tx σ ε α} {s s' : σ} {a : α} :
    body.atomically s = (.ok a, s') ↔ body s = (.ok a, s') := by
  unfold atomically
  split
  · rename_i h; rw [h]
  · rename_i h; rw [h]; simp

/-- **An error leaves the store as it was.** -/
theorem atomically_error {body : Tx σ ε α} {s s' : σ} {e : ε}
    (h : body.atomically s = (.error e, s')) : s' = s := by
  unfold atomically at h
  split at h
  · cases h
  · cases h; rfl

/-- A transaction commits what its body did, or changes nothing. -/
theorem atomically_cases (body : Tx σ ε α) (s : σ) :
    (∃ a, body s = (.ok a, (body.atomically s).2) ∧ (body.atomically s).1 = .ok a) ∨
      (∃ e, (body.atomically s).1 = .error e) ∧ (body.atomically s).2 = s := by
  unfold atomically
  split
  · rename_i h; exact .inl ⟨_, h, rfl⟩
  · exact .inr ⟨⟨_, rfl⟩, rfl⟩

end Tx
