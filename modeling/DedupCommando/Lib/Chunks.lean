import Mathlib

/-!
# Slices of a bounded length

`chunks n l` cuts a list into slices of `n + 1` elements, the last one as long as what is left.
-/

set_option autoImplicit false

namespace Chunks

variable {α : Type*}

def chunkLoop (n : Nat) : Nat → List α → List (List α)
  | 0, _ => []
  | _ + 1, [] => []
  | fuel + 1, x :: xs => (x :: xs.take n) :: chunkLoop n fuel (xs.drop n)

def chunks (n : Nat) (l : List α) : List (List α) := chunkLoop n l.length l

theorem flatten_chunkLoop (n : Nat) : ∀ {fuel : Nat} {l : List α}, l.length ≤ fuel →
    (chunkLoop n fuel l).flatten = l := by
  intro fuel
  induction fuel with
  | zero =>
    intro l h
    rw [List.length_eq_zero_iff.1 (Nat.le_zero.1 h)]
    rfl
  | succ fuel ih =>
    intro l h
    cases l with
    | nil => rfl
    | cons x xs =>
      have hdrop : (xs.drop n).length ≤ fuel := by
        rw [List.length_drop]
        rw [List.length_cons] at h
        omega
      show (x :: xs.take n) ++ (chunkLoop n fuel (xs.drop n)).flatten = x :: xs
      rw [ih hdrop, List.cons_append, List.take_append_drop]

theorem flatten_chunks (n : Nat) (l : List α) : (chunks n l).flatten = l :=
  flatten_chunkLoop n le_rfl

theorem ne_nil_of_mem_chunkLoop {n : Nat} {c : List α} : ∀ {fuel : Nat} {l : List α},
    c ∈ chunkLoop n fuel l → c ≠ [] := by
  intro fuel
  induction fuel with
  | zero => intro l h; cases h
  | succ fuel ih =>
    intro l h
    cases l with
    | nil => cases h
    | cons x xs =>
      rcases List.mem_cons.1 h with rfl | h
      · simp
      · exact ih h

theorem ne_nil_of_mem_chunks {n : Nat} {c l : List α} (h : c ∈ chunks n l) : c ≠ [] :=
  ne_nil_of_mem_chunkLoop h

end Chunks
