import Mathlib

/-!
# Files read once under a cache of identities

A program meets files one after another.  It reads a file in full unless its cache holds the file
under the very identity it has now, and it remembers what it has read.

* `reads` — what the cache lets through.
* `firsts` — each file once, the first time it is met.
* `Still` — no file comes back under another identity.
* `reads_eq_firsts_iff` — the cache reads each file once exactly when nothing moved.
-/

set_option autoImplicit false

namespace Recheck

variable {κ σ : Type} [BEq κ]

/-- A file as it is met: its name, its identity and its length. -/
structure Use (κ σ : Type) where
  key : κ
  stamp : σ
  size : Nat

/-- The cache holds an identity for exactly the names in `seen`. -/
def Holds (cache : List (κ × σ)) (seen : List κ) : Prop :=
  ∀ k, k ∈ seen ↔ ∃ s, cache.lookup k = some s

theorem Holds.congr {cache : List (κ × σ)} {seen seen' : List κ} (h : Holds cache seen)
    (hsame : ∀ k, k ∈ seen ↔ k ∈ seen') : Holds cache seen' := fun k => (hsame k).symm.trans (h k)

theorem Holds.lookup_eq_none {cache : List (κ × σ)} {seen : List κ} (h : Holds cache seen) {k : κ}
    (hk : k ∉ seen) : cache.lookup k = none := by
  rw [Option.eq_none_iff_forall_ne_some]
  exact fun s hs => hk ((h k).2 ⟨s, hs⟩)

variable [LawfulBEq κ] [DecidableEq σ]

/-- What one meeting reads. -/
def read (cache : List (κ × σ)) (u : Use κ σ) : Nat :=
  if cache.lookup u.key = some u.stamp then 0 else u.size

/-- What the cache holds after it. -/
def remember (cache : List (κ × σ)) (u : Use κ σ) : List (κ × σ) :=
  if cache.lookup u.key = some u.stamp then cache else (u.key, u.stamp) :: cache

def reads : List (κ × σ) → List (Use κ σ) → Nat
  | _, [] => 0
  | cache, u :: us => read cache u + reads (remember cache u) us

/-- The lengths of the files, each counted where its name is new. -/
def firsts : List κ → List (κ × Nat) → Nat
  | _, [] => 0
  | seen, (k, size) :: files =>
    if k ∈ seen then firsts seen files else size + firsts (k :: seen) files

/-- Whatever comes back has the identity it was remembered with, or nothing to read. -/
def Still : List (κ × σ) → List (Use κ σ) → Prop
  | _, [] => True
  | cache, u :: us =>
    (∀ s, cache.lookup u.key = some s → s = u.stamp ∨ u.size = 0) ∧ Still (remember cache u) us

def Use.file (u : Use κ σ) : κ × Nat := (u.key, u.size)

theorem lookup_remember_self (cache : List (κ × σ)) (u : Use κ σ) :
    (remember cache u).lookup u.key = some u.stamp := by
  unfold remember
  split
  · assumption
  · simp

theorem lookup_remember_of_ne {cache : List (κ × σ)} {u : Use κ σ} {k : κ} (h : k ≠ u.key) :
    (remember cache u).lookup k = cache.lookup k := by
  unfold remember
  split
  · rfl
  · rw [List.lookup_cons, beq_eq_false_iff_ne.2 h]

theorem Holds.remember {cache : List (κ × σ)} {seen : List κ} (h : Holds cache seen)
    (u : Use κ σ) : Holds (remember cache u) (u.key :: seen) := by
  intro k
  by_cases hk : k = u.key
  · subst hk
    simp [lookup_remember_self]
  · rw [lookup_remember_of_ne hk, ← h k]
    simp [hk]

/-- Only which names were seen counts. -/
theorem firsts_congr : ∀ {files : List (κ × Nat)} {seen seen' : List κ},
    (∀ k, k ∈ seen ↔ k ∈ seen') → firsts seen files = firsts seen' files
  | [], _, _, _ => rfl
  | (k, size) :: files, seen, seen', h => by
    have hcons : ∀ k', k' ∈ k :: seen ↔ k' ∈ k :: seen' := fun k' => by
      rw [List.mem_cons, List.mem_cons, h k']
    unfold firsts
    rw [firsts_congr h, firsts_congr hcons]
    by_cases hk : k ∈ seen
    · rw [if_pos hk, if_pos ((h k).1 hk)]
    · rw [if_neg hk, if_neg fun hmem => hk ((h k).2 hmem)]

theorem firsts_cons_of_mem {seen : List κ} {k : κ} (h : k ∈ seen) (files : List (κ × Nat)) :
    firsts (k :: seen) files = firsts seen files :=
  firsts_congr fun k' => by
    rw [List.mem_cons, or_iff_right_of_imp]
    rintro rfl
    exact h

/-- **The cache reads each file once exactly when nothing moved**, and never less. -/
theorem reads_eq_firsts_iff : ∀ {us : List (Use κ σ)} {cache : List (κ × σ)} {seen : List κ},
    Holds cache seen → firsts seen (us.map Use.file) ≤ reads cache us ∧
      (reads cache us = firsts seen (us.map Use.file) ↔ Still cache us)
  | [], _, _, _ => ⟨le_rfl, iff_of_true rfl trivial⟩
  | u :: us, cache, seen, h => by
    obtain ⟨hle, hiff⟩ := @reads_eq_firsts_iff us _ _ (h.remember u)
    rw [List.map_cons, show u.file = (u.key, u.size) from rfl, firsts, reads, Still, ← hiff, read]
    by_cases hseen : u.key ∈ seen
    · obtain ⟨s, hs⟩ := (h u.key).1 hseen
      rw [firsts_cons_of_mem hseen] at hle ⊢
      rw [if_pos hseen, hs]
      by_cases hstamp : s = u.stamp
      · simp [hstamp, hle]
      · have hread : ¬ (some s = some u.stamp) := fun he => hstamp (Option.some.inj he)
        rw [if_neg hread]
        refine ⟨by omega, fun heq => ⟨?_, by omega⟩, fun ⟨hsame, heq⟩ => ?_⟩
        · rintro s' hs'
          cases hs'
          exact .inr (by omega)
        · rcases hsame s rfl with hs' | hzero
          · exact absurd hs' hstamp
          · omega
    · rw [if_neg hseen, h.lookup_eq_none hseen, if_neg nofun]
      exact ⟨by omega, fun heq => ⟨nofun, by omega⟩, fun h => by have := h.2; omega⟩

end Recheck
