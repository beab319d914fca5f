import Mathlib

/-!
# A history trimmed to its newest places

A walk over a list, newest first, that drops what stands beyond the last place.  Only some elements
take a place; some of these are spared wherever they stand.

* `places` — the elements that take a place, in order.
* `trim` — what is dropped.
* `mem_trim` — an element is dropped if and only if it is beyond the last place and not spared.
* `trim_older` — with an element every older one is dropped.
* `staying_le_iff` — when the element the walk is made for finds a place.
-/

set_option autoImplicit false

namespace Trim

variable {α : Type} (limit : Nat) (place spared stale : α → Bool)

/-- The elements that take a place. -/
def places (xs : List α) : List α := xs.filter place

/-- What a walk drops that has counted `taken` places so far. -/
def trim : Nat → List α → List α
  | _, [] => []
  | taken, x :: xs =>
    if place x then
      if limit < taken + 1 ∧ spared x = false then x :: trim (taken + 1) xs else trim (taken + 1) xs
    else if stale x then x :: trim taken xs
    else trim taken xs

/-- Whether an element is dropped behind so many places. -/
def drops (taken : Nat) (x : α) : Bool :=
  if place x then decide (limit < taken + 1) && !spared x else stale x

/-- The places taken behind an element. -/
def takes (taken : Nat) (x : α) : Nat := if place x then taken + 1 else taken

variable {limit place spared stale}

theorem trim_cons (taken : Nat) (x : α) (xs : List α) :
    trim limit place spared stale taken (x :: xs) =
      (if drops limit place spared stale taken x then [x] else []) ++
        trim limit place spared stale (takes place taken x) xs := by
  rw [trim]
  unfold drops takes
  by_cases hp : place x = true
  · by_cases hl : limit < taken + 1
    · by_cases hs : spared x = true <;> simp [hp, hl, hs]
    · simp [hp, hl]
  · by_cases hs : stale x = true <;> simp [hp, hs]

theorem trim_sublist : ∀ (taken : Nat) (xs : List α),
    (trim limit place spared stale taken xs).Sublist xs
  | _, [] => List.Sublist.slnil
  | taken, x :: xs => by
    unfold trim
    split
    · split
      · exact (trim_sublist _ xs).cons_cons x
      · exact (trim_sublist _ xs).cons x
    · split
      · exact (trim_sublist _ xs).cons_cons x
      · exact (trim_sublist _ xs).cons x

/-- An element that takes no place is dropped where it is stale. -/
theorem mem_trim_stale : ∀ {taken : Nat} {xs : List α} {x : α}, x ∈ xs → place x = false →
    (x ∈ trim limit place spared stale taken xs ↔ stale x = true)
  | _, [], _, hx, _ => by simp at hx
  | taken, y :: xs, x, hx, hp => by
    have hrest : ∀ {n : Nat}, x ∈ xs →
        (x ∈ trim limit place spared stale n xs ↔ stale x = true) := fun h => mem_trim_stale h hp
    -- an element that is dropped is in the list, so a head that is not dropped decides alone
    have hout : ∀ {n : Nat}, x ∈ trim limit place spared stale n xs → x ∈ xs :=
      fun h => (trim_sublist _ _).subset h
    unfold trim
    by_cases hy : place y = true
    · have hne : x ≠ y := by
        rintro rfl
        rw [hp] at hy
        cases hy
      have hxs : x ∈ xs := (List.mem_cons.mp hx).resolve_left hne
      rw [if_pos hy]
      split
      · rw [List.mem_cons, or_iff_right hne, hrest hxs]
      · exact hrest hxs
    · rw [if_neg hy]
      by_cases hs : stale y = true
      · rw [if_pos hs, List.mem_cons]
        rcases List.mem_cons.mp hx with rfl | hxs
        · exact iff_of_true (.inl rfl) hs
        · rw [hrest hxs]
          exact ⟨fun h => h.elim (fun h => h ▸ hs) id, .inr⟩
      · rw [if_neg hs]
        rcases List.mem_cons.mp hx with rfl | hxs
        · exact ⟨fun h => (hrest (hout h)).mp h, fun h => absurd h hs⟩
        · exact hrest hxs

/-- **A place is given up** if and only if it stands beyond the limit and is not spared. -/
theorem mem_trim : ∀ {taken : Nat} {xs : List α} {x : α}, xs.Nodup → x ∈ xs → place x = true →
    (x ∈ trim limit place spared stale taken xs ↔
      x ∈ (places place xs).drop (limit - taken) ∧ spared x = false)
  | _, [], _, _, hx, _ => by simp at hx
  | taken, y :: xs, x, hnodup, hx, hp => by
    obtain ⟨hy, hnodup⟩ := List.nodup_cons.mp hnodup
    have hout : ∀ {n : Nat}, x ∈ trim limit place spared stale n xs → x ∈ xs :=
      fun h => (trim_sublist _ _).subset h
    have hfilter : ∀ {n : Nat}, x ∈ (places place xs).drop n → x ∈ xs :=
      fun h => (List.mem_filter.mp (List.drop_subset _ _ h)).1
    unfold trim
    by_cases hpy : place y = true
    · rw [if_pos hpy, places, List.filter_cons_of_pos hpy]
      change _ ↔ x ∈ (y :: places place xs).drop (limit - taken) ∧ _
      by_cases hlimit : limit < taken + 1
      · rw [show limit - taken = 0 by omega, List.drop_zero]
        rcases List.mem_cons.mp hx with rfl | hxs
        · by_cases hs : spared x = false
          · rw [if_pos ⟨hlimit, hs⟩]
            exact iff_of_true List.mem_cons_self ⟨List.mem_cons_self, hs⟩
          · rw [if_neg fun h => hs h.2]
            exact iff_of_false (fun h => hy (hout h)) fun h => hs h.2
        · have hne : x ≠ y := fun h => hy (h ▸ hxs)
          have ih := @mem_trim (taken + 1) xs x hnodup hxs hp
          rw [show limit - (taken + 1) = 0 by omega, List.drop_zero] at ih
          rw [List.mem_cons, or_iff_right hne, ← ih]
          split
          · rw [List.mem_cons, or_iff_right hne]
          · rfl
      · rw [if_neg fun h => hlimit h.1, show limit - taken = (limit - (taken + 1)) + 1 by omega,
          List.drop_succ_cons]
        rcases List.mem_cons.mp hx with rfl | hxs
        · exact iff_of_false (fun h => hy (hout h)) fun h => hy (hfilter h.1)
        · exact mem_trim hnodup hxs hp
    · have hne : x ≠ y := by
        rintro rfl
        exact hpy hp
      have hxs : x ∈ xs := (List.mem_cons.mp hx).resolve_left hne
      rw [if_neg hpy, places, List.filter_cons_of_neg hpy]
      split
      · rw [List.mem_cons, or_iff_right hne]
        exact mem_trim hnodup hxs hp
      · exact mem_trim hnodup hxs hp

/-- What stands behind an element beyond the last place is beyond it as well. -/
theorem trim_older {κ : Type} [LinearOrder κ] {age : α → κ} {xs : List α}
    (hsorted : xs.Pairwise fun a b => age b < age a) {n : Nat} {x y : α} (hx : x ∈ xs.drop n)
    (hy : y ∈ xs) (hle : age y ≤ age x) : y ∈ xs.drop n := by
  rw [← List.take_append_drop n xs] at hsorted hy
  rcases List.mem_append.mp hy with h | h
  · exact absurd ((List.pairwise_append.mp hsorted).2.2 y h x hx) (not_lt.mpr hle)
  · exact h

/-! ## The element the walk is made for -/

section Own

variable {own held : α → Bool} {xs : List α}

/-- How many places are taken by the element itself and by what is there without being held. -/
def staying (limit : Nat) (own held : α → Bool) (xs : List α) : Nat :=
  ((xs.take limit).filter fun x => own x || !held x).length + ((xs.drop limit).filter own).length

theorem length_filter_unique (hnodup : xs.Nodup)
    (hown : ∀ x ∈ xs, ∀ y ∈ xs, own x = true → own y = true → x = y) :
    (xs.filter own).length ≤ 1 := by
  by_contra hlt
  have hn := hnodup.filter own
  rcases hcase : xs.filter own with _ | ⟨x, _ | ⟨y, rest⟩⟩
  · simp [hcase] at hlt
  · simp [hcase] at hlt
  · rw [hcase] at hn
    obtain ⟨hx, hox⟩ := List.mem_filter.mp (show x ∈ xs.filter own by rw [hcase]; simp)
    obtain ⟨hy, hoy⟩ := List.mem_filter.mp (show y ∈ xs.filter own by rw [hcase]; simp)
    exact (List.nodup_cons.mp hn).1 (by rw [hown x hx y hy hox hoy]; exact List.mem_cons_self)

/-- **The places that stay fit the limit** unless the element itself stands beyond it while none of
    those in front is held. -/
theorem staying_le_iff (hnodup : xs.Nodup)
    (hown : ∀ x ∈ xs, ∀ y ∈ xs, own x = true → own y = true → x = y) :
    staying limit own held xs ≤ max limit 1 ↔
      limit = 0 ∨ (∀ x ∈ xs.drop limit, own x = false) ∨
        ∃ x ∈ xs.take limit, own x = false ∧ held x = true := by
  have hfront : ((xs.take limit).filter fun x => own x || !held x).length ≤ (xs.take limit).length :=
    List.length_filter_le _ _
  have hlength : (xs.take limit).length = min limit xs.length := List.length_take
  by_cases hback : ∀ x ∈ xs.drop limit, own x = false
  · have hnone : (xs.drop limit).filter own = [] :=
      List.filter_eq_nil_iff.mpr fun x hx => by simp [hback x hx]
    refine iff_of_true ?_ (.inr (.inl hback))
    unfold staying
    rw [hnone, List.length_nil]
    omega
  · rw [or_iff_right hback]
    push Not at hback
    obtain ⟨x, hx, hox⟩ := hback
    have hox : own x = true := by simpa using hox
    have hsub : (xs.drop limit).Sublist xs := List.drop_sublist _ _
    have hone : ((xs.drop limit).filter own).length = 1 := by
      have hle := length_filter_unique (hnodup.sublist hsub) fun y hy z hz =>
        hown y (hsub.subset hy) z (hsub.subset hz)
      have hpos := List.length_pos_of_mem (List.mem_filter.mpr ⟨hx, hox⟩)
      omega
    have hfull : (xs.take limit).length = limit := by
      have hlen := List.length_pos_of_mem hx
      rw [List.length_drop] at hlen
      omega
    unfold staying
    rw [hone]
    rcases Nat.eq_zero_or_pos limit with rfl | hpos
    · exact iff_of_true (by simp) (.inl rfl)
    · rw [or_iff_right (Nat.pos_iff_ne_zero.mp hpos)]
      have hall : (∃ y ∈ xs.take limit, own y = false ∧ held y = true) ↔
          ((xs.take limit).filter fun y => own y || !held y).length ≠ (xs.take limit).length := by
        rw [ne_eq, List.length_filter_eq_length_iff]
        simp
      rw [hall]
      omega

end Own

end Trim
