import Mathlib
import DedupCommando.Lib.Checked

/-!
# What a query of an embedded SQL engine computes

Cells carry their own storage class, so a declared column type promises nothing about a value.

* `Value`, `Value.key` — the storage classes and their one order: NULL, numbers, text, blobs.
* `same`, `differs` — `=` and `<>`, neither of which holds of NULL.
* `outer` — the rows one row of a LEFT JOIN meets, or one row of NULLs.
* `repeated` — how many values a GROUP BY finds more than once.
* `unhex` — hexadecimal text back to a blob.
* `orderBy` — ORDER BY, stable; `join_swap` — a join read from its other side.
* `minimum`, `countDistinct`, `sumInteger` — aggregates.
-/

set_option autoImplicit false

namespace Sql

abbrev Octets := List (Fin 256)

/-- One cell: its storage class and its content. -/
inductive Value where
  | null
  | integer (n : Int)
  | real (q : ℚ)
  | text (b : Octets)
  | blob (b : Octets)
  deriving DecidableEq

namespace Value

def typeof : Value → String
  | null => "null"
  | integer _ => "integer"
  | real _ => "real"
  | text _ => "text"
  | blob _ => "blob"

/-- The place of a cell in the engine's order; numbers of either class compare by value. -/
def key : Value → ℕ ×ₗ ℚ ×ₗ Octets
  | null => toLex (0, toLex (0, []))
  | integer n => toLex (1, toLex (n, []))
  | real q => toLex (1, toLex (q, []))
  | text b => toLex (2, toLex (0, b))
  | blob b => toLex (3, toLex (0, b))

/-- `a = b`: false as soon as one side is NULL. -/
def same (a b : Value) : Bool := decide (a ≠ null ∧ a.key = b.key)

/-- `a <> b`: false as soon as one side is NULL. -/
def differs (a b : Value) : Bool := decide (a ≠ null ∧ b ≠ null ∧ a.key ≠ b.key)

theorem key_eq_text {v : Value} {b : Octets} : v.key = (text b).key ↔ v = text b := by
  cases v <;> simp [key]

theorem key_eq_blob {v : Value} {b : Octets} : v.key = (blob b).key ↔ v = blob b := by
  cases v <;> simp [key]

theorem key_eq_null {v : Value} : v.key = null.key ↔ v = null := by
  cases v <;> simp [key]

theorem same_iff {a b : Value} : same a b = true ↔ a ≠ null ∧ a.key = b.key := by
  simp [same]

theorem same_comm (a b : Value) : same a b = same b a := by
  have h : ∀ x y : Value, same x y = true → same y x = true := by
    intro x y hxy
    obtain ⟨hne, hk⟩ := same_iff.1 hxy
    exact same_iff.2 ⟨fun hy => hne (key_eq_null.1 (hy ▸ hk)), hk.symm⟩
  exact Bool.eq_iff_iff.2 ⟨h a b, h b a⟩

theorem same_trans {a b c : Value} (h₁ : same a b = true) (h₂ : same b c = true) :
    same a c = true :=
  same_iff.2 ⟨(same_iff.1 h₁).1, (same_iff.1 h₁).2.trans (same_iff.1 h₂).2⟩

@[simp]
theorem same_text {v : Value} {b : Octets} : same v (text b) = true ↔ v = text b := by
  rw [same_iff, key_eq_text]
  exact ⟨And.right, fun h => ⟨by simp [h], h⟩⟩

@[simp]
theorem same_blob {v : Value} {b : Octets} : same v (blob b) = true ↔ v = blob b := by
  rw [same_iff, key_eq_blob]
  exact ⟨And.right, fun h => ⟨by simp [h], h⟩⟩

@[simp]
theorem same_null (v : Value) : same v null = false := by
  rw [same_comm]; simp [same]

@[simp]
theorem null_same (v : Value) : same null v = false := by simp [same]

@[simp]
theorem same_integer {m n : Int} : same (integer m) (integer n) = true ↔ m = n := by
  simp [same, key]

/-- Where both sides are there, `<>` is the negation of `=`. -/
theorem differs_eq_not_same {a b : Value} (ha : a ≠ null) (hb : b ≠ null) :
    differs a b = !same a b := by
  simp [differs, same, ha, hb]

end Value

/-! ## Hexadecimal text -/

/-- The value of one hexadecimal digit of either case. -/
def hexDigit (c : Fin 256) : Option Nat :=
  if 48 ≤ c.val ∧ c.val ≤ 57 then some (c.val - 48)
  else if 97 ≤ c.val ∧ c.val ≤ 102 then some (c.val - 87)
  else if 65 ≤ c.val ∧ c.val ≤ 70 then some (c.val - 55)
  else none

/-- Pairs of digits to octets; an odd digit or a foreign character fails the whole. -/
def unhexPairs : Octets → Option Octets
  | [] => some []
  | [_] => none
  | a :: b :: rest =>
    match hexDigit a, hexDigit b, unhexPairs rest with
    | some x, some y, some out => some (Fin.ofNat 256 (16 * x + y) :: out)
    | _, _, _ => none

/-- The text before the first NUL, which is all that a C string function sees. -/
def cText (b : Octets) : Octets := b.takeWhile fun x => decide (x ≠ 0)

/-- `unhex(v)`: NULL unless `v` reads as pairs of hexadecimal digits. -/
def unhex (v : Value) : Value :=
  let decoded := match v with
    | .text b => unhexPairs (cText b)
    | .blob b => unhexPairs (cText b)
    | .integer n => unhexPairs ((toString n).toList.map fun c => Fin.ofNat 256 c.toNat)
    | _ => none
  match decoded with
  | some b => .blob b
  | none => .null

/-- Hexadecimal text decodes to a blob or to nothing. -/
theorem unhex_eq (v : Value) : unhex v = .null ∨ ∃ b, unhex v = .blob b := by
  unfold unhex
  dsimp only
  split
  · exact .inr ⟨_, rfl⟩
  · exact .inl rfl

/-! ## Joins -/

section Join

variable {β : Type}

/-- What one row meets in `LEFT JOIN ys ON ..`: every match, or one row of NULLs. -/
def outer (on : β → Bool) (ys : List β) : List (Option β) :=
  match ys.filter on with
  | [] => [none]
  | matched => matched.map some

theorem some_mem_outer {on : β → Bool} {ys : List β} {y : β} :
    some y ∈ outer on ys ↔ y ∈ ys ∧ on y = true := by
  unfold outer
  split
  · rename_i h
    have hn : ¬(y ∈ ys ∧ on y = true) := by
      rw [← List.mem_filter, h]; exact List.not_mem_nil
    simpa using hn
  · rename_i h
    simp [← List.mem_filter]

theorem none_mem_outer {on : β → Bool} {ys : List β} :
    none ∈ outer on ys ↔ ∀ y ∈ ys, on y = false := by
  unfold outer
  split
  · rename_i h
    simpa [List.filter_eq_nil_iff] using h
  · rename_i h
    simp only [List.mem_map, reduceCtorEq, and_false, exists_false, false_iff, not_forall]
    obtain ⟨y, hy⟩ := List.exists_mem_of_ne_nil _ h
    obtain ⟨hmem, hon⟩ := List.mem_filter.1 hy
    exact ⟨y, hmem, by simp [hon]⟩

/-- A LEFT JOIN keeps every row it starts from. -/
theorem outer_ne_nil (on : β → Bool) (ys : List β) : outer on ys ≠ [] := by
  unfold outer
  split
  · simp
  · rename_i h; simpa using h

/-- Rows that no other row matches with: the join meets exactly that one. -/
theorem outer_unique {on : β → Bool} {ys : List β} {y : β} (hy : y ∈ ys) (hon : on y = true)
    (hu : ys.Pairwise fun a b => ¬(on a = true ∧ on b = true)) : outer on ys = [some y] := by
  have hfilter : ys.filter on = [y] := by
    induction ys with
    | nil => exact absurd hy List.not_mem_nil
    | cons a as ih =>
      obtain ⟨ha, has⟩ := List.pairwise_cons.1 hu
      rcases List.mem_cons.1 hy with rfl | hy
      · rw [List.filter_cons_of_pos hon]
        have : as.filter on = [] := by
          rw [List.filter_eq_nil_iff]
          exact fun b hb hob => ha b hb ⟨hon, hob⟩
        rw [this]
      · rw [List.filter_cons_of_neg fun hoa => ha y hy ⟨hoa, hon⟩]
        exact ih hy has
  unfold outer
  rw [hfilter]; rfl

/-- A LEFT JOIN has no row that is missing its right side or fails on it. -/
theorem outer_filter_all_eq_nil {on P : β → Bool} {ys : List β} :
    ((outer on ys).filter fun o => o.all P) = [] ↔
      ys.filter on ≠ [] ∧ ∀ y ∈ ys.filter on, P y = false := by
  rw [List.filter_eq_nil_iff]
  constructor
  · intro h
    refine ⟨fun hn => ?_, fun y hy => ?_⟩
    · have hmem : none ∈ outer on ys := by
        refine none_mem_outer.2 fun y hy => ?_
        simpa using List.filter_eq_nil_iff.1 hn y hy
      exact h none hmem rfl
    · simpa using h (some y) (some_mem_outer.2 (List.mem_filter.1 hy))
  · rintro ⟨hne, hall⟩ (_ | y) ho
    · obtain ⟨y, hy⟩ := List.exists_mem_of_ne_nil _ hne
      have := none_mem_outer.1 ho y (List.mem_filter.1 hy).1
      rw [(List.mem_filter.1 hy).2] at this; cases this
    · simpa using hall y (List.mem_filter.2 (some_mem_outer.1 ho))

/-- Where something matches, the join is the inner join. -/
theorem outer_of_match {on : β → Bool} {ys : List β} (h : ys.filter on ≠ []) :
    outer on ys = (ys.filter on).map some := by
  unfold outer
  split
  · rename_i hn; exact absurd hn h
  · rfl

end Join

/-! ## Grouping and order -/

/-- `SELECT COUNT(*) FROM (SELECT v .. GROUP BY v HAVING COUNT(*) > 1)`; NULLs are one group. -/
def repeated (vs : List Value) : Nat :=
  ((vs.map Value.key).dedup.filter fun k => decide (1 < (vs.map Value.key).count k)).length

theorem repeated_eq_zero {vs : List Value} : repeated vs = 0 ↔ (vs.map Value.key).Nodup := by
  unfold repeated
  rw [List.length_eq_zero_iff, List.filter_eq_nil_iff, List.nodup_iff_count_le_one]
  constructor
  · intro h k
    by_cases hk : k ∈ vs.map Value.key
    · simpa using h k (List.mem_dedup.2 hk)
    · rw [List.count_eq_zero_of_not_mem hk]; exact Nat.zero_le _
  · intro h k _
    simpa using h k

/-- ORDER BY an ascending key; ties keep the order of the rows. -/
def orderBy {α κ : Type} [LinearOrder κ] (key : α → κ) (rows : List α) : List α :=
  rows.insertionSort fun a b => key a ≤ key b

section Order

variable {α κ : Type} [LinearOrder κ]

theorem orderBy_perm (key : α → κ) (rows : List α) : (orderBy key rows).Perm rows :=
  List.perm_insertionSort _ _

@[simp]
theorem mem_orderBy {key : α → κ} {rows : List α} {a : α} : a ∈ orderBy key rows ↔ a ∈ rows :=
  (orderBy_perm key rows).mem_iff

theorem orderBy_sorted (key : α → κ) (rows : List α) :
    (orderBy key rows).Pairwise fun a b => key a ≤ key b := by
  have : Std.Total fun a b : α => key a ≤ key b := ⟨fun a b => le_total _ _⟩
  have : IsTrans α fun a b : α => key a ≤ key b := ⟨fun _ _ _ => le_trans⟩
  exact List.pairwise_insertionSort _ _

/-- A join read from its other side. -/
theorem join_swap {α β γ : Type} (on : α → β → Bool) (f : α → β → List γ) (bs : List β) :
    ∀ as : List α, (as.flatMap fun a => (bs.filter (on a)).flatMap (f a)).Perm
      (bs.flatMap fun b => (as.filter fun a => on a b).flatMap fun a => f a b)
  | [] => by simp
  | a :: as => by
    have hown : (bs.filter (on a)).flatMap (f a) = bs.flatMap fun b => if on a b then f a b else [] := by
      induction bs with
      | nil => rfl
      | cons b bs ih =>
        rw [List.filter_cons, List.flatMap_cons, ← ih]
        split <;> simp
    have hsplit : ∀ b ∈ bs, ((a :: as).filter fun a => on a b).flatMap (fun a => f a b) =
        (if on a b then f a b else []) ++ (as.filter fun a => on a b).flatMap fun a => f a b := by
      intro b _
      rw [List.filter_cons]
      split <;> simp
    rw [List.flatMap_cons, List.flatMap_congr hsplit, hown]
    exact ((join_swap on f bs as).append_left _).trans (List.flatMap_append_perm _ _ _)

/-- Rows in the order of a key that tells them apart are one list. -/
theorem eq_of_perm_of_sorted {key : α → κ} {l l' : List α}
    (hperm : l.Perm l') (hl : l.Pairwise fun a b => key a ≤ key b)
    (hl' : l'.Pairwise fun a b => key a < key b) : l = l' := by
  have hinj : ∀ a ∈ l', ∀ b ∈ l', key a = key b → a = b := by
    have hnodup : (l'.map key).Nodup := List.pairwise_map.mpr (hl'.imp ne_of_lt)
    intro a ha b hb h
    exact List.inj_on_of_nodup_map hnodup ha hb h
  refine List.Perm.eq_of_pairwise (fun a b ha hb hab hba => ?_) hl (hl'.imp le_of_lt) hperm
  exact hinj a (hperm.mem_iff.mp ha) b hb (le_antisymm hab hba)

/-- Rows that a column tells apart are strictly in its order, once they are in its order. -/
theorem sorted_strict {β : Type} {column : β → Value} {l : List β}
    (hsorted : l.Pairwise fun a b => (column a).key ≤ (column b).key)
    (hkeyed : l.Pairwise fun a b => Value.same (column a) (column b) = false)
    (hnull : ∀ a ∈ l, column a ≠ .null) : l.Pairwise fun a b => (column a).key < (column b).key :=
  (hsorted.and hkeyed).imp_of_mem fun {a b} ha _ h => by
    refine lt_of_le_of_ne h.1 fun he => ?_
    rw [Value.same_iff.mpr ⟨hnull a ha, he⟩] at h
    exact absurd h.2 (by decide)

theorem keyed_orderBy {β : Type} {column : β → Value} {l : List β}
    (hkeyed : l.Pairwise fun a b => Value.same (column a) (column b) = false) :
    (Sql.orderBy (fun a => (column a).key) l).Pairwise
      fun a b => Value.same (column a) (column b) = false :=
  (Sql.orderBy_perm _ _).symm.pairwise hkeyed fun h => (Value.same_comm _ _).trans h

end Order

/-! ## Aggregates and arithmetic -/

/-- `a < b`: false as soon as one side is NULL. -/
def Value.less (a b : Value) : Bool := decide (a ≠ .null ∧ b ≠ .null ∧ a.key < b.key)

/-- `MIN(v)` over a group: NULLs are passed over. -/
def minimum (vs : List Value) : Value :=
  ((orderBy Value.key (vs.filter fun v => decide (v ≠ .null))).head?).getD .null

/-- A minimum that is there is one of the values. -/
theorem minimum_mem {vs : List Value} (h : minimum vs ≠ .null) : minimum vs ∈ vs := by
  unfold minimum at h ⊢
  cases hl : orderBy Value.key (vs.filter fun u => decide (u ≠ .null)) with
  | nil => rw [hl] at h; exact absurd rfl h
  | cons u us =>
    rw [List.head?_cons, Option.getD_some]
    have hu : u ∈ orderBy Value.key (vs.filter fun u => decide (u ≠ .null)) := by
      rw [hl]; exact List.mem_cons_self
    exact (List.mem_filter.1 (mem_orderBy.1 hu)).1

/-- There is a minimum as soon as one value is not NULL. -/
theorem minimum_ne_null {vs : List Value} {v : Value} (hv : v ∈ vs) (hne : v ≠ .null) :
    minimum vs ≠ .null := by
  unfold minimum
  cases hl : orderBy Value.key (vs.filter fun u => decide (u ≠ .null)) with
  | nil =>
    have : v ∈ orderBy Value.key (vs.filter fun u => decide (u ≠ .null)) :=
      mem_orderBy.2 (List.mem_filter.2 ⟨hv, by simpa using hne⟩)
    rw [hl] at this
    exact absurd this List.not_mem_nil
  | cons u us =>
    have hu : u ∈ orderBy Value.key (vs.filter fun u => decide (u ≠ .null)) := by
      rw [hl]; exact List.mem_cons_self
    rw [List.head?_cons, Option.getD_some]
    simpa using (List.mem_filter.1 (mem_orderBy.1 hu)).2

theorem minimum_const {v : Value} (hv : v ≠ .null) {vs : List Value} (hne : vs ≠ [])
    (h : ∀ u ∈ vs, u = v) : minimum vs = v := by
  obtain ⟨u, hu⟩ := List.exists_mem_of_ne_nil _ hne
  exact h _ (minimum_mem (minimum_ne_null hu (h u hu ▸ hv)))

/-- `COUNT(DISTINCT v)`: NULLs are not counted. -/
def countDistinct (vs : List Value) : Nat :=
  ((vs.filter fun v => decide (v ≠ .null)).map Value.key).dedup.length

/-- Distinct values are counted from two on when two of them differ. -/
theorem countDistinct_le_one {vs : List Value} :
    ¬1 < countDistinct vs ↔ ∀ u ∈ vs, ∀ v ∈ vs, u ≠ .null → v ≠ .null → u.key = v.key := by
  have hmem : ∀ k, k ∈ ((vs.filter fun v => decide (v ≠ .null)).map Value.key).dedup ↔
      ∃ v ∈ vs, v ≠ .null ∧ v.key = k := by
    intro k
    simp [List.mem_dedup, and_assoc]
  unfold countDistinct
  rw [Nat.not_lt]
  constructor
  · intro hle u hu v hv hun hvn
    have hu := (hmem u.key).2 ⟨u, hu, hun, rfl⟩
    have hv := (hmem v.key).2 ⟨v, hv, hvn, rfl⟩
    rcases hl : ((vs.filter fun v => decide (v ≠ .null)).map Value.key).dedup with _ | ⟨k, _ | ⟨j, ks⟩⟩
    · rw [hl] at hu; exact absurd hu List.not_mem_nil
    · rw [hl, List.mem_singleton] at hu hv; rw [hu, hv]
    · rw [hl, List.length_cons, List.length_cons] at hle; omega
  · intro h
    by_contra hlt
    have hnd := List.nodup_dedup ((vs.filter fun v => decide (v ≠ .null)).map Value.key)
    match hl : ((vs.filter fun v => decide (v ≠ .null)).map Value.key).dedup with
    | [] => rw [hl] at hlt; exact hlt (by simp)
    | [k] => rw [hl] at hlt; exact hlt (by simp)
    | j :: k :: ks =>
      rw [hl] at hnd
      obtain ⟨u, hu, hun, rfl⟩ := (hmem j).1 (by rw [hl]; exact List.mem_cons_self)
      obtain ⟨v, hv, hvn, rfl⟩ := (hmem k).1 (by rw [hl]; exact List.mem_cons_of_mem _ List.mem_cons_self)
      exact (List.nodup_cons.1 hnd).1 (h u hu v hv hun hvn ▸ List.mem_cons_self)

/-- A running sum of integer cells; NULLs are passed over. -/
def sumFrom (sum : Int) : List Value → Except String Int
  | [] => .ok sum
  | .integer n :: vs =>
    if -2 ^ 63 ≤ sum + n ∧ sum + n < 2 ^ 63 then sumFrom (sum + n) vs else .error "integer overflow"
  | _ :: vs => sumFrom sum vs

/-- `COALESCE(SUM(v), 0)` read as an integer: one cell that is not an integer makes the sum a real. -/
def sumInteger (vs : List Value) : Except String Int :=
  if vs.any fun v => decide (v ≠ .null ∧ v.typeof ≠ "integer") then
    .error "Invalid column type real"
  else sumFrom 0 vs

/-- The running sum of integers that are not negative leaves the domain only where the sum does. -/
theorem sumFrom_nonneg : ∀ {ns : List Nat} {sum : Nat}, sum < 2 ^ 63 →
    sumFrom sum (ns.map fun n : Nat => .integer n) =
      if sum + ns.sum < 2 ^ 63 then .ok (sum + ns.sum : Nat) else .error "integer overflow"
  | [], sum, h => by rw [List.map_nil, sumFrom, List.sum_nil, Nat.add_zero, if_pos h]
  | n :: ns, sum, h => by
    rw [List.map_cons, sumFrom, List.sum_cons]
    by_cases hn : sum + n < 2 ^ 63
    · rw [if_pos (by omega), show (sum + n : Int) = ((sum + n : Nat) : Int) by omega,
        sumFrom_nonneg hn, Nat.add_assoc]
    · rw [if_neg (by omega), if_neg (by omega)]

theorem sumInteger_nonneg (ns : List Nat) :
    sumInteger (ns.map fun n : Nat => .integer n) =
      if ns.sum < 2 ^ 63 then .ok (ns.sum : Int) else .error "integer overflow" := by
  have hall : ¬((ns.map fun n : Nat => Value.integer n).any
      fun v => decide (v ≠ .null ∧ v.typeof ≠ "integer")) = true := by
    simp [Value.typeof]
  unfold sumInteger
  rw [if_neg hall]
  simpa using @sumFrom_nonneg ns 0 (by decide)

/-- `v * n` of a number: an integer product outside 64 bits becomes a real. -/
def Value.times (v : Value) (n : Int) : Value :=
  match v with
  | .integer m => if -2 ^ 63 ≤ m * n ∧ m * n < 2 ^ 63 then .integer (m * n) else .real (m * n)
  | .real q => .real (q * n)
  | _ => .null

/-- The digit of a value below sixteen. -/
def hexChar (n : Nat) : Fin 256 := if n < 10 then Fin.ofNat 256 (48 + n) else Fin.ofNat 256 (87 + n)

/-- `lower(hex(b))` -/
def hexText (b : Octets) : Octets := b.flatMap fun x => [hexChar (x.val / 16), hexChar (x.val % 16)]

/-- `lower(hex(v))`: NULL is empty, and a number is taken by its decimal text. -/
def lowerHex (v : Value) : Octets :=
  match v with
  | .text b => hexText b
  | .blob b => hexText b
  | .integer n => hexText ((toString n).toList.map fun c => Fin.ofNat 256 c.toNat)
  | _ => []

/-! ## Hexadecimal text and back -/

theorem hexDigit_hexChar {n : Nat} (h : n < 16) : hexDigit (hexChar n) = some n := by
  unfold hexChar
  split
  · rename_i hn
    have hval : (Fin.ofNat 256 (48 + n)).val = 48 + n := Nat.mod_eq_of_lt (by omega)
    rw [hexDigit, hval, if_pos (by omega)]
    simp
  · rename_i hn
    have hval : (Fin.ofNat 256 (87 + n)).val = 87 + n := Nat.mod_eq_of_lt (by omega)
    rw [hexDigit, hval, if_neg (by omega), if_pos (by omega)]
    simp

/-- A digit is one of the sixteen. -/
theorem hexChar_range {n : Nat} (h : n < 16) :
    (48 ≤ (hexChar n).val ∧ (hexChar n).val ≤ 57) ∨ (97 ≤ (hexChar n).val ∧ (hexChar n).val ≤ 102) := by
  unfold hexChar
  split
  · rename_i hn
    have hval : (Fin.ofNat 256 (48 + n)).val = 48 + n := Nat.mod_eq_of_lt (by omega)
    rw [hval]; omega
  · rename_i hn
    have hval : (Fin.ofNat 256 (87 + n)).val = 87 + n := Nat.mod_eq_of_lt (by omega)
    rw [hval]; omega

theorem mem_hexText {b : Octets} {c : Fin 256} (h : c ∈ hexText b) :
    (48 ≤ c.val ∧ c.val ≤ 57) ∨ (97 ≤ c.val ∧ c.val ≤ 102) := by
  obtain ⟨x, -, hc⟩ := List.mem_flatMap.1 h
  have hx := x.isLt
  rcases List.mem_cons.1 hc with rfl | hc
  · exact hexChar_range (by omega)
  · rw [List.mem_singleton.1 hc]
    exact hexChar_range (by omega)

theorem length_hexText (b : Octets) : (hexText b).length = 2 * b.length := by
  induction b with
  | nil => rfl
  | cons x b ih =>
    have : hexText (x :: b) = hexChar (x.val / 16) :: hexChar (x.val % 16) :: hexText b := rfl
    rw [this, List.length_cons, List.length_cons, ih, List.length_cons]
    omega

theorem unhexPairs_hexText (b : Octets) : unhexPairs (hexText b) = some b := by
  induction b with
  | nil => rfl
  | cons x b ih =>
    have hcons : hexText (x :: b) = hexChar (x.val / 16) :: hexChar (x.val % 16) :: hexText b := rfl
    have hx := x.isLt
    have hbyte : Fin.ofNat 256 (16 * (x.val / 16) + x.val % 16) = x := by
      rw [Nat.div_add_mod]
      exact Fin.ext (Nat.mod_eq_of_lt hx)
    rw [hcons, unhexPairs, hexDigit_hexChar (by omega), hexDigit_hexChar (by omega), ih]
    simp only [hbyte]

theorem cText_hexText (b : Octets) : cText (hexText b) = hexText b := by
  refine List.takeWhile_eq_self_iff.2 fun c hc => ?_
  have := mem_hexText hc
  simp only [decide_eq_true_eq]
  rintro rfl
  simp at this

/-- Hexadecimal text reads back as what it was made from. -/
@[simp]
theorem unhex_hexText (b : Octets) : unhex (.text (hexText b)) = .blob b := by
  unfold unhex
  simp only [cText_hexText, unhexPairs_hexText]

theorem hexText_injective : Function.Injective hexText := by
  intro a b h
  have := unhexPairs_hexText a
  rw [h, unhexPairs_hexText] at this
  exact (Option.some.inj this).symm

end Sql
