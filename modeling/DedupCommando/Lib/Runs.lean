import Mathlib

/-!
# Folding the runs of a sorted list

The loop that reads one row after the other, keeps the run of equal keys it is in, and closes a
run when the next key differs or the rows end.

* `RunLoop`, `RunLoop.loop` — the loop with its open run and the number of runs it has closed.
* `Reads` — every row of a list reads.
* `loop_none_ok` — over rows in the order of their keys the loop succeeds exactly when every row
  reads and every run closes, and it has then closed each key once.
-/

set_option autoImplicit false

theorem exists_of_forall₂_left {α β : Type} {R : α → β → Prop} {l : List α} {m : List β}
    (h : List.Forall₂ R l m) : ∀ a ∈ l, ∃ b ∈ m, R a b := by
  induction h with
  | nil => exact fun a ha => absurd ha List.not_mem_nil
  | cons hab _ ih =>
    intro a ha
    rcases List.mem_cons.1 ha with rfl | ha
    · exact ⟨_, List.mem_cons_self, hab⟩
    · obtain ⟨b, hb, hab⟩ := ih a ha
      exact ⟨b, List.mem_cons_of_mem _ hb, hab⟩

theorem exists_of_forall₂_right {α β : Type} {R : α → β → Prop} {l : List α} {m : List β}
    (h : List.Forall₂ R l m) : ∀ b ∈ m, ∃ a ∈ l, R a b :=
  exists_of_forall₂_left (R := fun b a => R a b) h.flip

/-- How rows are read, gathered and closed. -/
structure RunLoop (ρ α β κ ε : Type) where
  key : ρ → κ
  read : ρ → Except ε α
  start : α → β
  push : β → α → β
  close : β → Except ε Unit

namespace RunLoop

variable {ρ α β κ ε : Type} [LinearOrder κ] (L : RunLoop ρ α β κ ε)

/-- The loop from the run it is in and the number of runs it has closed. -/
def loop : Option (κ × β) → Nat → List ρ → Except ε Nat
  | none, seen, [] => .ok seen
  | some (_, b), seen, [] =>
    match L.close b with
    | .error e => .error e
    | .ok () => .ok (seen + 1)
  | current, seen, r :: rs =>
    match L.read r with
    | .error e => .error e
    | .ok a =>
      match current with
      | none => loop (some (L.key r, L.push (L.start a) a)) seen rs
      | some (k, b) =>
        if k = L.key r then loop (some (k, L.push b a)) seen rs
        else
          match L.close b with
          | .error e => .error e
          | .ok () => loop (some (L.key r, L.push (L.start a) a)) (seen + 1) rs

/-- Every row reads, and this is what they read. -/
def Reads (rows : List ρ) (as : List α) : Prop := List.Forall₂ (fun r a => L.read r = .ok a) rows as

/-- The rows of one key. -/
def run (k : κ) (rows : List ρ) : List ρ := rows.filter fun r => decide (L.key r = k)

/-- One run closes on what it has gathered. -/
def Closes (rows : List ρ) : Prop :=
  ∃ a as, L.Reads rows (a :: as) ∧ L.close ((a :: as).foldl L.push (L.start a)) = .ok ()

variable {L}

theorem loop_some_nil {k : κ} {b : β} {seen n : Nat} :
    L.loop (some (k, b)) seen [] = .ok n ↔ L.close b = .ok () ∧ n = seen + 1 := by
  unfold loop
  split
  · rename_i h; simp [h]
  · rename_i h; simp [h, eq_comm]

theorem loop_none_cons {seen n : Nat} {r : ρ} {rs : List ρ} :
    L.loop none seen (r :: rs) = .ok n ↔
      ∃ a, L.read r = .ok a ∧ L.loop (some (L.key r, L.push (L.start a) a)) seen rs = .ok n := by
  conv_lhs => unfold loop
  split
  · rename_i e h; simp [h]
  · rename_i a h; simp [h]

theorem loop_some_same {b : β} {seen n : Nat} {r : ρ} {rs : List ρ} :
    L.loop (some (L.key r, b)) seen (r :: rs) = .ok n ↔
      ∃ a, L.read r = .ok a ∧ L.loop (some (L.key r, L.push b a)) seen rs = .ok n := by
  conv_lhs => unfold loop
  split
  · rename_i e h; simp [h]
  · rename_i a h; simp [h]

theorem loop_some_other {k : κ} {b : β} {seen n : Nat} {r : ρ} {rs : List ρ} (hk : k ≠ L.key r) :
    L.loop (some (k, b)) seen (r :: rs) = .ok n ↔
      L.close b = .ok () ∧ L.loop none (seen + 1) (r :: rs) = .ok n := by
  rw [loop_none_cons]
  conv_lhs => unfold loop
  split
  · rename_i e h; simp [h]
  · rename_i a h
    simp only [hk, if_false, h, Except.ok.injEq, exists_eq_left']
    cases L.close b <;> simp

/-- An open run takes the rows of its key, closes, and leaves the others to a loop without one. -/
theorem loop_some {rows : List ρ} : ∀ {k : κ} {b : β} {seen n : Nat},
    (∀ r ∈ rows, k ≤ L.key r) → rows.Pairwise (fun r s => L.key r ≤ L.key s) →
    (L.loop (some (k, b)) seen rows = .ok n ↔
      ∃ own, L.Reads (L.run k rows) own ∧ L.close (own.foldl L.push b) = .ok () ∧
        L.loop none (seen + 1) (rows.filter fun r => decide (L.key r ≠ k)) = .ok n) := by
  induction rows with
  | nil =>
    intro k b seen n _ _
    rw [loop_some_nil]
    simp only [run, Reads, List.filter_nil, List.forall₂_nil_left_iff, exists_eq_left,
      List.foldl_nil]
    simp [loop, eq_comm]
  | cons r rs ih =>
    intro k b seen n hle hsorted
    obtain ⟨hr, hrs⟩ := List.pairwise_cons.1 hsorted
    by_cases hk : L.key r = k
    · subst hk
      have hkeep : L.run (L.key r) (r :: rs) = r :: L.run (L.key r) rs := by simp [run]
      have hdrop : (r :: rs).filter (fun s => decide (L.key s ≠ L.key r)) =
          rs.filter fun s => decide (L.key s ≠ L.key r) := by simp
      rw [hkeep, hdrop, loop_some_same]
      constructor
      · rintro ⟨a, ha, h⟩
        obtain ⟨own, hown, hclose, hrest⟩ := (ih hr hrs).1 h
        exact ⟨a :: own, .cons ha hown, hclose, hrest⟩
      · rintro ⟨own, hown, hclose, hrest⟩
        cases hown with
        | cons ha hown => exact ⟨_, ha, (ih hr hrs).2 ⟨_, hown, hclose, hrest⟩⟩
    · -- The rows that follow are all of later keys, so the run is complete.
      have hlater : ∀ s ∈ r :: rs, L.key s ≠ k := by
        intro s hs
        have hlt : k < L.key r := lt_of_le_of_ne (hle r List.mem_cons_self) (Ne.symm hk)
        rcases List.mem_cons.1 hs with rfl | hs
        · exact hk
        · exact (lt_of_lt_of_le hlt (hr s hs)).ne'
      have hkeep : L.run k (r :: rs) = [] :=
        List.filter_eq_nil_iff.2 fun s hs => by simpa using hlater s hs
      have hdrop : (r :: rs).filter (fun s => decide (L.key s ≠ k)) = r :: rs :=
        List.filter_eq_self.2 fun s hs => by simpa using hlater s hs
      rw [hkeep, hdrop, loop_some_other (Ne.symm hk)]
      simp [Reads]

theorem card_keys_cons (k : κ) (ks : List κ) :
    (k :: ks).toFinset.card = (ks.filter fun j => decide (j ≠ k)).toFinset.card + 1 := by
  have hset : (k :: ks).toFinset = insert k (ks.filter fun j => decide (j ≠ k)).toFinset := by
    ext j
    by_cases hj : j = k <;> simp [hj]
  rw [hset, Finset.card_insert_of_notMem (by simp)]

/-- **What the loop does over rows in the order of their keys.** -/
theorem loop_none_ok (rows : List ρ) {seen n : Nat}
    (hsorted : rows.Pairwise fun r s => L.key r ≤ L.key s) :
    L.loop none seen rows = .ok n ↔
      (∀ k ∈ rows.map L.key, L.Closes (L.run k rows)) ∧
        n = seen + (rows.map L.key).toFinset.card := by
  induction hlen : rows.length using Nat.strong_induction_on generalizing rows seen n with
  | _ len ih =>
    cases rows with
    | nil => simp [loop, eq_comm]
    | cons r rs =>
      obtain ⟨hr, hrs⟩ := List.pairwise_cons.1 hsorted
      have hshort : (rs.filter fun s => decide (L.key s ≠ L.key r)).length < len := by
        rw [← hlen, List.length_cons]
        exact Nat.lt_succ_of_le (List.length_filter_le _ _)
      have hrest := @ih _ hshort (rs.filter fun s => decide (L.key s ≠ L.key r)) (seen + 1) n
        (hrs.filter _) rfl
      -- Away from the first key, a run of the rest is a run of the whole.
      have hruns : ∀ k ≠ L.key r, L.run k (r :: rs) =
          L.run k (rs.filter fun s => decide (L.key s ≠ L.key r)) := by
        intro k hk
        unfold run
        rw [List.filter_cons_of_neg (by simpa using Ne.symm hk), List.filter_filter]
        refine List.filter_congr fun s _ => ?_
        by_cases hs : L.key s = k <;> simp [hs, hk]
      have hfirst : L.run (L.key r) (r :: rs) = r :: L.run (L.key r) rs := by simp [run]
      have hkeys : (rs.filter fun s => decide (L.key s ≠ L.key r)).map L.key =
          (rs.map L.key).filter fun j => decide (j ≠ L.key r) := by
        rw [List.filter_map]; rfl
      rw [loop_none_cons]
      simp only [loop_some hr hrs, hrest, hkeys, List.map_cons, card_keys_cons]
      constructor
      · rintro ⟨a, ha, own, hown, hclose, hothers, rfl⟩
        refine ⟨fun k hk => ?_, by omega⟩
        by_cases hkr : k = L.key r
        · subst hkr
          rw [hfirst]
          exact ⟨a, own, .cons ha hown, hclose⟩
        · rw [hruns k hkr]
          refine hothers k (List.mem_filter.2 ⟨?_, by simpa using hkr⟩)
          exact (List.mem_cons.1 hk).resolve_left hkr
      · rintro ⟨hall, rfl⟩
        obtain ⟨a, own, hown, hclose⟩ := hall (L.key r) List.mem_cons_self
        rw [hfirst] at hown
        cases hown with
        | cons ha hown =>
          refine ⟨a, ha, own, hown, hclose, fun k hk => ?_, by omega⟩
          obtain ⟨hk, hkr⟩ := List.mem_filter.1 hk
          rw [← hruns k (by simpa using hkr)]
          exact hall k (List.mem_cons_of_mem _ hk)

end RunLoop
