import Mathlib

/-!
# Sums over a walk of a forest

A walk visits items that each lie at a node.  A stack holds the node of the last item and the nodes
above it; a node that the next item does not lie at or under is closed and hands its sum, with a
weight of its own, to the node above it.

* `Forest` — the chain of a node: itself, what is above it, up to its root.
* `unwind`, `openAll`, `charge`, `step`, `run` — the walk.
* `settled` — the sums the open nodes would hand on if all of them were closed now.
* `Good` — the invariant; `step_good` is one item.
* `run_spec` — **when the items of each node come together, every node is closed once, after all
  below it, with the sum of its items and of the weights below it.**
-/

set_option autoImplicit false

namespace DedupCommando

namespace Nesting

variable {α M : Type} [AddCommMonoid M]

/-- A forest by the chains of its nodes. -/
structure Forest (up : α → List α) : Prop where
  head : ∀ a, ∃ above, up a = a :: above
  above : ∀ a, ∀ b ∈ up a, up b <:+ up a
  nodup : ∀ a, (up a).Nodup

/-- What the walk visits: the chain it lies under, and what it is worth. -/
structure Item (α M : Type) where
  chain : List α
  value : M

/-! ## What the open nodes would hand on -/

def settled (w : α → M) : M → List (α × M) → List (α × M)
  | _, [] => []
  | m, (d, own) :: rest => (d, own + m) :: settled w (own + m + w d) rest

@[simp] theorem map_fst_settled (w : α → M) : ∀ (m : M) (stack : List (α × M)),
    (settled w m stack).map Prod.fst = stack.map Prod.fst
  | _, [] => rfl
  | m, (d, own) :: rest => by
    rw [settled, List.map_cons, List.map_cons, map_fst_settled]

/-- What is handed on to the top reaches every open node. -/
theorem settled_add (w : α → M) (x : M) : ∀ (m : M) (stack : List (α × M)),
    settled w (m + x) stack = (settled w m stack).map fun e => (e.1, e.2 + x)
  | _, [] => rfl
  | m, (d, own) :: rest => by
    rw [settled, settled, List.map_cons, ← settled_add w x]
    congr 2
    · rw [add_assoc]
    · rw [← add_assoc, add_right_comm]

def charge (m : M) : List (α × M) → List (α × M)
  | [] => []
  | (d, own) :: rest => (d, own + m) :: rest

theorem charge_fst (m : M) : ∀ stack : List (α × M),
    (charge m stack).map Prod.fst = stack.map Prod.fst
  | [] => rfl
  | _ :: _ => rfl

theorem settled_charge (w : α → M) (m : M) : ∀ stack : List (α × M),
    settled w 0 (charge m stack) = (settled w 0 stack).map fun e => (e.1, e.2 + m)
  | [] => rfl
  | (d, own) :: rest => by
    rw [charge, settled, settled, List.map_cons, ← settled_add]
    simp only [add_zero]
    rw [add_right_comm]

/-! ## Chains -/

theorem Forest.self_mem {up : α → List α} (hup : Forest up) (a : α) : a ∈ up a := by
  obtain ⟨above, h⟩ := hup.head a
  rw [h]
  exact List.mem_cons_self

/-- In a chain everything from a node on is the chain of that node. -/
theorem Forest.suffix_eq {up : α → List α} (hup : Forest up) {a b : α} {rest : List α}
    (h : b :: rest <:+ up a) : up b = b :: rest := by
  obtain ⟨above, hb⟩ := hup.head b
  have hsuffix := hup.above a b (h.subset List.mem_cons_self)
  have hnodup := hup.nodup a
  obtain hle | hle := List.suffix_or_suffix_of_suffix hsuffix h
  · -- `up b` is a suffix of `b :: rest`; a proper one would hold `b` twice
    obtain ⟨front, hfront⟩ := hle
    cases front with
    | nil => exact hfront
    | cons x front =>
      obtain ⟨rfl, hrest⟩ := List.cons.inj hfront
      have hmem : x ∈ rest := by
        rw [← hrest]
        exact List.mem_append_right _ (hup.self_mem x)
      have hnodup' := hnodup.sublist h.sublist
      exact absurd hmem (List.nodup_cons.mp hnodup').1
  · obtain ⟨front, hfront⟩ := hle
    cases front with
    | nil => exact hfront.symm
    | cons x front =>
      rw [hb, List.cons_append] at hfront
      obtain ⟨rfl, habove⟩ := List.cons.inj hfront
      have hmem : x ∈ above := by
        rw [← habove]
        exact List.mem_append_right _ List.mem_cons_self
      have hnodup' := hnodup.sublist hsuffix.sublist
      rw [hb] at hnodup'
      exact absurd hmem (List.nodup_cons.mp hnodup').1

/-- A chain of the forest, or nothing at all. -/
def IsChain (up : α → List α) (c : List α) : Prop := c = [] ∨ ∃ a, c = up a

/-- In a chain, what is above a node of it is in it. -/
theorem IsChain.mem_of_up {up : α → List α} (hup : Forest up) {c : List α} (hc : IsChain up c)
    {d e : α} (he : e ∈ c) (hd : d ∈ up e) : d ∈ c := by
  obtain rfl | ⟨a, rfl⟩ := hc
  · exact absurd he List.not_mem_nil
  · exact (hup.above a e he).subset hd

variable [DecidableEq α]

/-! ## The walk -/

/-- Closes the open nodes down to the first one of `keep`. `m` is what the last closed one hands
on. -/
def unwind (w : α → M) (keep : List α) : M → List (α × M) → List (α × M) × List (α × M)
  | _, [] => ([], [])
  | m, (d, own) :: rest =>
    if d ∈ keep then ((d, own + m) :: rest, [])
    else
      let r := unwind w keep (own + m + w d) rest
      (r.1, (d, own + m) :: r.2)

/-- Opens the nodes that are not open yet, from the root down. -/
def openAll : List α → List (α × M) → List (α × M)
  | [], stack => stack
  | d :: ds, stack => openAll ds (if d ∈ stack.map Prod.fst then stack else (d, 0) :: stack)

/-- One item, on the open nodes and the closed ones. -/
def step (w : α → M) (s : List (α × M) × List (α × M)) (item : Item α M) :
    List (α × M) × List (α × M) :=
  let r := unwind w item.chain 0 s.1
  (charge item.value (openAll item.chain.reverse r.1), s.2 ++ r.2)

/-- The closed nodes of a whole walk. -/
def run (w : α → M) (items : List (Item α M)) : List (α × M) :=
  let s := items.foldl (step w) ([], [])
  s.2 ++ (unwind w [] 0 s.1).2

/-- Closing changes neither what the closed ones had nor what the open ones would hand on. -/
theorem unwind_settled (w : α → M) (keep : List α) : ∀ (m : M) (stack : List (α × M)),
    (unwind w keep m stack).2 ++ settled w 0 (unwind w keep m stack).1 = settled w m stack
  | _, [] => rfl
  | m, (d, own) :: rest => by
    unfold unwind
    split
    · simp [settled]
    · have ih := unwind_settled w keep (own + m + w d) rest
      simp only [List.cons_append, ih, settled]

theorem unwind_fst (w : α → M) (keep : List α) : ∀ (m : M) (stack : List (α × M)),
    (unwind w keep m stack).1.map Prod.fst =
      (stack.map Prod.fst).dropWhile fun d => decide (d ∉ keep)
  | _, [] => rfl
  | m, (d, own) :: rest => by
    unfold unwind
    by_cases h : d ∈ keep
    · simp [h]
    · rw [if_neg h]
      dsimp only
      rw [unwind_fst w keep, List.map_cons, List.dropWhile_cons, if_pos (by simpa using h)]

theorem unwind_snd (w : α → M) (keep : List α) : ∀ (m : M) (stack : List (α × M)),
    (unwind w keep m stack).2.map Prod.fst =
      (stack.map Prod.fst).takeWhile fun d => decide (d ∉ keep)
  | _, [] => rfl
  | m, (d, own) :: rest => by
    unfold unwind
    by_cases h : d ∈ keep
    · simp [h]
    · rw [if_neg h]
      dsimp only
      rw [List.map_cons, unwind_snd w keep, List.map_cons, List.takeWhile_cons,
        if_pos (by simpa using h)]

/-- What is left of one chain at its first node of another ends that other one too. -/
theorem Forest.dropWhile_suffix {up : α → List α} (hup : Forest up) {c keep : List α}
    (hc : IsChain up c) (hkeep : IsChain up keep) :
    (c.dropWhile fun d => decide (d ∉ keep)) <:+ keep := by
  cases hdrop : c.dropWhile fun d => decide (d ∉ keep) with
  | nil => exact List.nil_suffix
  | cons e rest =>
    have hsuffix : e :: rest <:+ c := hdrop ▸ List.dropWhile_suffix _
    have he : e ∈ keep := by
      have hhead := List.head?_dropWhile_not (fun d => decide (d ∉ keep)) c
      rw [hdrop] at hhead
      simpa using hhead
    obtain rfl | ⟨a, rfl⟩ := hc
    · simp at hdrop
    · obtain rfl | ⟨b, rfl⟩ := hkeep
      · exact absurd he List.not_mem_nil
      · rw [← hup.suffix_eq hsuffix]
        exact hup.above b e he

/-! ## The invariant -/

/-- What the items at or under a node are worth. -/
def total (items : List (Item α M)) (d : α) : M :=
  ((items.filter fun i => decide (d ∈ i.chain)).map Item.value).sum

/-- The weights of the nodes below a node. -/
def below (up : α → List α) (w : α → M) (nodes : List α) (d : α) : M :=
  ((nodes.filter fun e => decide (e ≠ d ∧ d ∈ up e)).map w).sum

/-- The closed nodes and the open ones, the top first. -/
def nodesOf (s : List (α × M) × List (α × M)) : List α := s.2.map Prod.fst ++ s.1.map Prod.fst

/-- The items of each node come together. -/
def Together (items : List (Item α M)) : Prop :=
  ∀ d before x mid y after, items = before ++ x :: (mid ++ y :: after) →
    d ∈ x.chain → d ∈ y.chain → ∀ z ∈ mid, d ∈ z.chain

/-- The state of a walk that has visited `done` and has `todo` to come. -/
structure Good (up : α → List α) (w : α → M) (done todo : List (Item α M))
    (s : List (α × M) × List (α × M)) : Prop where
  chain : s.1.map Prod.fst = done.getLast?.elim [] Item.chain
  nodes : ∀ d, d ∈ nodesOf s ↔ ∃ i ∈ done, d ∈ i.chain
  order : (nodesOf s).Pairwise fun a b => a ∉ up b
  closed : ∀ d ∈ s.2.map Prod.fst, ∀ i ∈ todo, d ∉ i.chain
  values : ∀ e ∈ s.2 ++ settled w 0 s.1, e.2 = total done e.1 + below up w (nodesOf s) e.1

theorem openAll_append : ∀ (ds es : List α) (stack : List (α × M)),
    openAll (ds ++ es) stack = openAll es (openAll ds stack)
  | [], _, _ => rfl
  | d :: ds, es, stack => by
    rw [List.cons_append, openAll, openAll, openAll_append]

/-- Where nothing open is kept, everything is closed. -/
theorem unwind_all {w : α → M} {keep : List α} {m : M} {stack : List (α × M)}
    (h : ∀ d ∈ stack.map Prod.fst, d ∉ keep) : (unwind w keep m stack).1 = [] := by
  rw [← List.map_eq_nil_iff (f := Prod.fst), unwind_fst, List.dropWhile_eq_nil_iff]
  intro d hd
  exact decide_eq_true (h d hd)

/-- What is open and kept stays open. -/
theorem mem_unwind {w : α → M} {keep : List α} {m : M} {stack : List (α × M)} {d : α}
    (hd : d ∈ stack.map Prod.fst) (hkeep : d ∈ keep) :
    d ∈ (unwind w keep m stack).1.map Prod.fst := by
  rw [unwind_fst]
  rw [← List.takeWhile_append_dropWhile (p := fun d => decide (d ∉ keep))
    (l := stack.map Prod.fst), List.mem_append] at hd
  obtain hgone | hkept := hd
  · have hno := List.mem_takeWhile_imp hgone
    simp [hkeep] at hno
  · exact hkept

theorem mem_openAll {d : α} : ∀ {ds : List α} {stack : List (α × M)}, d ∈ stack.map Prod.fst →
    d ∈ (openAll ds stack).map Prod.fst
  | [], _, h => h
  | e :: ds, stack, h => by
    rw [openAll]
    apply mem_openAll
    split
    · exact h
    · exact List.mem_cons_of_mem _ h

theorem openAll_open : ∀ {ds : List α} {stack : List (α × M)},
    (∀ d ∈ ds, d ∈ stack.map Prod.fst) → openAll ds stack = stack
  | [], _, _ => rfl
  | d :: ds, stack, h => by
    rw [openAll, if_pos (h d List.mem_cons_self)]
    exact openAll_open fun e he => h e (List.mem_cons_of_mem _ he)

theorem openAll_fresh : ∀ {new : List α} {stack : List (α × M)},
    (new ++ stack.map Prod.fst).Nodup →
      openAll new.reverse stack = new.map (fun d => (d, 0)) ++ stack
  | [], _, _ => rfl
  | d :: new, stack, h => by
    obtain ⟨hd, hnodup⟩ := List.nodup_cons.mp h
    rw [List.reverse_cons, openAll_append, openAll_fresh hnodup, openAll, openAll, if_neg]
    · rfl
    · simpa using hd

theorem below_insert (up : α → List α) (w : α → M) (front back : List α) (d e : α) :
    below up w (front ++ d :: back) e =
      below up w (front ++ back) e + if d ≠ e ∧ e ∈ up d then w d else 0 := by
  unfold below
  by_cases h : d ≠ e ∧ e ∈ up d
  · simp [h, add_comm, add_left_comm]
  · simp [h]

theorem below_eq_zero {up : α → List α} {w : α → M} {nodes : List α} {d : α}
    (h : ∀ e ∈ nodes, e ≠ d → d ∈ up e → w e = 0) : below up w nodes d = 0 := by
  unfold below
  apply List.sum_eq_zero
  intro x hx
  obtain ⟨e, he, rfl⟩ := List.mem_map.mp hx
  obtain ⟨he, hboth⟩ := List.mem_filter.mp he
  obtain ⟨hne, hup⟩ := of_decide_eq_true hboth
  exact h e he hne hup

theorem total_eq_zero {items : List (Item α M)} {d : α} (h : ∀ i ∈ items, d ∉ i.chain) :
    total items d = 0 := by
  have hnil : items.filter (fun i => decide (d ∈ i.chain)) = [] := by
    rw [List.filter_eq_nil_iff]
    intro i hi hmem
    exact h i hi (of_decide_eq_true hmem)
  rw [total, hnil]
  rfl

theorem total_cons (item : Item α M) (items : List (Item α M)) (d : α) :
    total (item :: items) d = (if d ∈ item.chain then item.value else 0) + total items d := by
  unfold total
  by_cases h : d ∈ item.chain
  · simp [h]
  · simp [h]

theorem total_snoc (items : List (Item α M)) (item : Item α M) (d : α) :
    total (items ++ [item]) d = total items d + if d ∈ item.chain then item.value else 0 := by
  unfold total
  by_cases h : d ∈ item.chain
  · simp [h]
  · simp [h]

/-- The nodes of a walk whose new nodes are not open yet keep their values, and the new ones are
worth nothing. -/
theorem open_values {up : α → List α} (hup : Forest up) {w : α → M} {done : List (Item α M)}
    {out stack : List (α × M)} (hdone : ∀ i ∈ done, IsChain up i.chain)
    (hnodes : ∀ d ∈ nodesOf (stack, out), ∃ i ∈ done, d ∈ i.chain) :
    ∀ {new : List α}, (new = [] ∨ ∃ a, new ++ stack.map Prod.fst = up a) →
      (∀ d ∈ new, ∀ i ∈ done, d ∉ i.chain) →
      (∀ d ∈ out.map Prod.fst, d ∉ new ++ stack.map Prod.fst) →
      (nodesOf (stack, out)).Pairwise (fun a b => a ∉ up b) →
      (∀ e ∈ out ++ settled w 0 stack,
        e.2 = total done e.1 + below up w (nodesOf (stack, out)) e.1) →
      (nodesOf (new.map (fun d => (d, (0 : M))) ++ stack, out)).Pairwise (fun a b => a ∉ up b) ∧
      ∀ e ∈ out ++ settled w 0 (new.map (fun d => (d, (0 : M))) ++ stack),
        e.2 = total done e.1 +
          below up w (nodesOf (new.map (fun d => (d, (0 : M))) ++ stack, out)) e.1
  | [], _, _, _, horder, hvalues => ⟨horder, hvalues⟩
  | d :: new, hchain, hfresh, hout, horder, hvalues => by
    obtain ⟨a, ha⟩ := hchain.resolve_left (List.cons_ne_nil _ _)
    have hd : up d = d :: (new ++ stack.map Prod.fst) :=
      hup.suffix_eq (a := a) (by rw [← ha]; exact List.suffix_refl _)
    have hnodup := hup.nodup d
    rw [hd, List.nodup_cons] at hnodup
    have hchain' : new = [] ∨ ∃ a, new ++ stack.map Prod.fst = up a := by
      cases new with
      | nil => exact .inl rfl
      | cons x new =>
        refine .inr ⟨x, (hup.suffix_eq (a := d) ?_).symm⟩
        rw [hd]
        exact List.suffix_cons d _
    obtain ⟨horder', hvalues'⟩ := open_values hup hdone hnodes hchain'
      (fun e he => hfresh e (List.mem_cons_of_mem _ he))
      (fun e he hmem => hout e he (List.mem_cons_of_mem _ hmem)) horder hvalues
    have hfst : (new.map (fun d => (d, (0 : M))) ++ stack).map Prod.fst =
        new ++ stack.map Prod.fst := by simp [Function.comp_def]
    -- no node is at or under the one that is opened
    have hnone : ∀ e ∈ out.map Prod.fst ++ (new ++ stack.map Prod.fst), d ∉ up e := by
      intro e he hde
      by_cases hnew : e ∈ new ++ stack.map Prod.fst
      · have hmem : d ∈ new ++ stack.map Prod.fst := by
          have hsuffix := hup.above d e (by rw [hd]; exact List.mem_cons_of_mem _ hnew)
          rw [hd] at hsuffix
          obtain heq | htail := List.suffix_cons_iff.mp hsuffix
          · have hself := hup.head e
            obtain ⟨above, habove⟩ := hself
            rw [habove] at heq
            obtain ⟨rfl, -⟩ := List.cons.inj heq
            exact hnew
          · exact htail.subset hde
        exact hnodup.1 hmem
      · have hleft : e ∈ out.map Prod.fst := (List.mem_append.mp he).resolve_right hnew
        obtain ⟨i, hi, hmem⟩ := hnodes e (List.mem_append_left _ hleft)
        exact hfresh d List.mem_cons_self i hi ((hdone i hi).mem_of_up hup hmem hde)
    have hfst' : ((d :: new).map (fun d => (d, (0 : M))) ++ stack).map Prod.fst =
        d :: (new ++ stack.map Prod.fst) := by simp [Function.comp_def]
    unfold nodesOf at horder' hvalues' ⊢
    dsimp only at horder' hvalues' ⊢
    rw [hfst] at horder' hvalues'
    rw [hfst']
    refine ⟨?_, ?_⟩
    · rw [List.pairwise_append] at horder' ⊢
      obtain ⟨hleft, hright, hcross⟩ := horder'
      refine ⟨hleft, List.pairwise_cons.mpr ⟨?_, hright⟩, ?_⟩
      · intro b hb
        exact hnone b (List.mem_append_right _ hb)
      · intro x hx b hb
        obtain rfl | hb := List.mem_cons.mp hb
        · rw [hd]
          exact hout x hx
        · exact hcross x hx b hb
    · intro e he
      rw [below_insert]
      rw [List.map_cons, List.cons_append, settled, List.mem_append, List.mem_cons] at he
      obtain he | rfl | he := he
      · have hcond : ¬(d ≠ e.1 ∧ e.1 ∈ up d) := by
          rintro ⟨-, hmem⟩
          rw [hd] at hmem
          exact hout e.1 (List.mem_map_of_mem he) hmem
        rw [if_neg hcond, add_zero]
        exact hvalues' e (List.mem_append_left _ he)
      · rw [total_eq_zero (hfresh d List.mem_cons_self), below_eq_zero fun e he _ hin => absurd hin (hnone e he)]
        simp
      · rw [zero_add, zero_add, ← zero_add (w d), settled_add, List.mem_map] at he
        obtain ⟨x, hx, rfl⟩ := he
        have hmem : x.1 ∈ new ++ stack.map Prod.fst := by
          rw [← hfst, ← map_fst_settled w 0]
          exact List.mem_map_of_mem hx
        have hne : d ≠ x.1 := by
          rintro rfl
          exact hnodup.1 hmem
        rw [if_pos ⟨hne, by rw [hd]; exact List.mem_cons_of_mem _ hmem⟩, ← add_assoc,
          ← hvalues' x (List.mem_append_right _ hx)]

/-! ## One item -/

omit [AddCommMonoid M] [DecidableEq α] in
/-- An earlier item at or under a node of the next one has the last one there as well. -/
theorem Together.last {done todo : List (Item α M)} {item i : Item α M} {d : α}
    (h : Together (done ++ item :: todo)) (hi : i ∈ done) (hd : d ∈ i.chain)
    (hitem : d ∈ item.chain) : ∃ l, done.getLast? = some l ∧ d ∈ l.chain := by
  obtain ⟨before, rest, rfl⟩ := List.append_of_mem hi
  obtain rfl | ⟨rest, l, rfl⟩ := List.eq_nil_or_concat rest
  · exact ⟨i, by simp, hd⟩
  · refine ⟨l, by simp [List.getLast?_cons], ?_⟩
    apply h d before i (rest ++ [l]) item todo
    · simp
    · exact hd
    · exact hitem
    · simp

omit [AddCommMonoid M] [DecidableEq α] in
/-- A node that the next item leaves has no item to come. -/
theorem Together.left {done todo : List (Item α M)} {item l z : Item α M} {d : α}
    (h : Together (done ++ item :: todo)) (hl : done.getLast? = some l) (hd : d ∈ l.chain)
    (hz : z ∈ todo) (hdz : d ∈ z.chain) : d ∈ item.chain := by
  obtain ⟨before, rfl⟩ : ∃ before, done = before ++ [l] := by
    obtain ⟨before, hbefore⟩ := List.getLast?_eq_some_iff.mp hl
    exact ⟨before, hbefore⟩
  obtain ⟨mid, after, rfl⟩ := List.append_of_mem hz
  apply h d before l (item :: mid) z after
  · simp
  · exact hd
  · exact hdz
  · exact List.mem_cons_self

theorem step_good {up : α → List α} (hup : Forest up) {w : α → M} {done todo : List (Item α M)}
    {item : Item α M} (hchains : ∀ i ∈ done ++ item :: todo, IsChain up i.chain)
    (htog : Together (done ++ item :: todo)) {s : List (α × M) × List (α × M)}
    (hgood : Good up w done (item :: todo) s) :
    Good up w (done ++ [item]) todo (step w s item) := by
  obtain ⟨stack, out⟩ := s
  obtain ⟨hchain, hnodes, horder, hclosed, hvalues⟩ := hgood
  dsimp only at hchain hclosed hvalues
  have hdone : ∀ i ∈ done, IsChain up i.chain := fun i hi => hchains i (List.mem_append_left _ hi)
  have hitem : IsChain up item.chain :=
    hchains item (List.mem_append_right _ List.mem_cons_self)
  have hstack : IsChain up (stack.map Prod.fst) := by
    rw [hchain]
    cases hlast : done.getLast? with
    | none => exact .inl rfl
    | some l => exact hdone l (List.mem_of_getLast? hlast)
  have hopen := unwind_fst w item.chain 0 stack
  have hshut := unwind_snd w item.chain 0 stack
  have hledger := unwind_settled w item.chain 0 stack
  unfold step
  dsimp only
  revert hopen hshut hledger
  generalize unwind w item.chain 0 stack = r
  intro hopen hshut hledger
  obtain ⟨kept, shut⟩ := r
  dsimp only at hopen hshut hledger ⊢
  -- the closed nodes and the open ones are the same list as before
  have hsame : nodesOf (kept, out ++ shut) = nodesOf (stack, out) := by
    unfold nodesOf
    dsimp only
    rw [List.map_append, hopen, hshut, List.append_assoc, List.takeWhile_append_dropWhile]
  obtain ⟨new, hnew⟩ : kept.map Prod.fst <:+ item.chain := by
    rw [hopen]
    exact hup.dropWhile_suffix hstack hitem
  have hnodup : (new ++ kept.map Prod.fst).Nodup := by
    rw [hnew]
    obtain hnil | ⟨a, ha⟩ := hitem
    · rw [hnil]
      exact List.nodup_nil
    · rw [ha]
      exact hup.nodup a
  have hgone : ∀ d ∈ shut.map Prod.fst, d ∈ stack.map Prod.fst ∧ d ∉ item.chain := by
    intro d hd
    rw [hshut] at hd
    have hno := List.mem_takeWhile_imp hd
    exact ⟨(List.takeWhile_prefix _).subset hd, by simpa using hno⟩
  have hfresh : ∀ d ∈ new, ∀ i ∈ done, d ∉ i.chain := by
    intro d hd i hi hmem
    have hd' : d ∈ item.chain := by
      rw [← hnew]
      exact List.mem_append_left _ hd
    obtain ⟨l, hlast, hl⟩ := htog.last hi hmem hd'
    have hin : d ∈ stack.map Prod.fst := by
      rw [hchain, hlast]
      exact hl
    rw [← List.takeWhile_append_dropWhile (p := fun d => decide (d ∉ item.chain))
      (l := stack.map Prod.fst), ← hopen, ← hshut, List.mem_append] at hin
    obtain hin | hin := hin
    · exact (hgone d hin).2 hd'
    · exact (List.nodup_append.mp hnodup).2.2 d hd d hin rfl
  have hout : ∀ d ∈ (out ++ shut).map Prod.fst, d ∉ new ++ kept.map Prod.fst := by
    intro d hd
    rw [hnew]
    rw [List.map_append, List.mem_append] at hd
    obtain hd | hd := hd
    · exact hclosed d hd item List.mem_cons_self
    · exact (hgone d hd).2
  have hchain' : new = [] ∨ ∃ a, new ++ kept.map Prod.fst = up a := by
    rw [hnew]
    obtain hnil | ha := hitem
    · left
      rw [hnil] at hnew
      exact (List.append_eq_nil_iff.mp hnew).1
    · exact .inr ha
  obtain ⟨horder', hvalues'⟩ := open_values hup (w := w) hdone
    (fun d hd => (hnodes d).mp (hsame ▸ hd)) hchain' hfresh hout (by rw [hsame]; exact horder)
    (by rw [hsame, List.append_assoc, hledger]; exact hvalues)
  have hopened : openAll item.chain.reverse kept = new.map (fun d => (d, (0 : M))) ++ kept := by
    have hbase : openAll (kept.map Prod.fst).reverse kept = kept :=
      openAll_open fun d hd => List.mem_reverse.mp hd
    rw [← hnew, List.reverse_append, openAll_append, hbase, openAll_fresh hnodup]
  rw [hopened]
  have hfst : (new.map (fun d => (d, (0 : M))) ++ kept).map Prod.fst = item.chain := by
    rw [← hnew]
    simp [Function.comp_def]
  have hnodes' : nodesOf (charge item.value (new.map (fun d => (d, (0 : M))) ++ kept),
      out ++ shut) = nodesOf (new.map (fun d => (d, (0 : M))) ++ kept, out ++ shut) := by
    unfold nodesOf
    dsimp only
    rw [charge_fst]
  refine ⟨?_, ?_, ?_, ?_, ?_⟩
  · dsimp only
    rw [charge_fst, hfst]
    simp
  · intro d
    have hbefore := hnodes d
    rw [← hsame] at hbefore
    unfold nodesOf at hbefore hnodes' ⊢
    dsimp only at hbefore hnodes' ⊢
    rw [hnodes', hfst, List.mem_append]
    rw [List.mem_append] at hbefore
    constructor
    · rintro (hd | hd)
      · obtain ⟨i, hi, hmem⟩ := hbefore.mp (.inl hd)
        exact ⟨i, List.mem_append_left _ hi, hmem⟩
      · exact ⟨item, by simp, hd⟩
    · rintro ⟨i, hi, hmem⟩
      obtain hi | hi := List.mem_append.mp hi
      · obtain hd | hd := hbefore.mpr ⟨i, hi, hmem⟩
        · exact .inl hd
        · exact .inr (hnew ▸ List.mem_append_right _ hd)
      · rw [List.mem_singleton] at hi
        exact .inr (hi ▸ hmem)
  · rw [hnodes']
    exact horder'
  · intro d hd i hi hmem
    dsimp only at hd
    rw [List.map_append, List.mem_append] at hd
    obtain hd | hd := hd
    · exact hclosed d hd i (List.mem_cons_of_mem _ hi) hmem
    · obtain ⟨hin, hno⟩ := hgone d hd
      cases hlast : done.getLast? with
      | none =>
        rw [hchain, hlast] at hin
        exact absurd hin List.not_mem_nil
      | some l =>
        rw [hchain, hlast] at hin
        exact hno (htog.left hlast hin hi hmem)
  · intro e he
    rw [hnodes', total_snoc]
    dsimp only at he
    rw [settled_charge, List.mem_append] at he
    obtain he | he := he
    · have hno : e.1 ∉ item.chain := by
        rw [← hnew]
        exact hout e.1 (List.mem_map_of_mem he)
      rw [if_neg hno, add_zero]
      exact hvalues' e (List.mem_append_left _ he)
    · obtain ⟨x, hx, rfl⟩ := List.mem_map.mp he
      have hin : x.1 ∈ item.chain := by
        rw [← hfst, ← map_fst_settled w 0]
        exact List.mem_map_of_mem hx
      rw [if_pos hin, add_right_comm, ← hvalues' x (List.mem_append_right _ hx)]

theorem foldl_good {up : α → List α} (hup : Forest up) {w : α → M} :
    ∀ {todo done : List (Item α M)} {s : List (α × M) × List (α × M)},
      (∀ i ∈ done ++ todo, IsChain up i.chain) → Together (done ++ todo) →
      Good up w done todo s → Good up w (done ++ todo) [] (todo.foldl (step w) s)
  | [], done, s, _, _, hgood => by simpa using hgood
  | item :: todo, done, s, hchains, htog, hgood => by
    have hstep := step_good hup hchains htog hgood
    have hassoc : done ++ item :: todo = done ++ [item] ++ todo := by simp
    rw [hassoc] at hchains htog ⊢
    exact foldl_good hup hchains htog hstep

/-- **A whole walk.** Every node of a chain is closed once, after all below it, with the sum of its
items and of the weights below it. -/
theorem run_spec {up : α → List α} (hup : Forest up) {w : α → M} {items : List (Item α M)}
    (hchains : ∀ i ∈ items, IsChain up i.chain) (htog : Together items) :
    (∀ d, d ∈ (run w items).map Prod.fst ↔ ∃ i ∈ items, d ∈ i.chain) ∧
      ((run w items).map Prod.fst).Pairwise (fun a b => a ∉ up b) ∧
      ∀ e ∈ run w items, e.2 = total items e.1 + below up w ((run w items).map Prod.fst) e.1 := by
  have hstart : Good up w [] items ([], []) :=
    ⟨rfl, by simp [nodesOf], List.Pairwise.nil, by simp, by simp [settled]⟩
  obtain ⟨-, hnodes, horder, -, hvalues⟩ := foldl_good hup
    (show ∀ i ∈ [] ++ items, IsChain up i.chain from hchains) htog hstart
  have hshut := unwind_snd w [] 0 (items.foldl (step w) ([], [])).1
  have hopen := unwind_fst w [] 0 (items.foldl (step w) ([], [])).1
  have hledger := unwind_settled w [] 0 (items.foldl (step w) ([], [])).1
  have hrun : (run w items).map Prod.fst = nodesOf (items.foldl (step w) ([], [])) := by
    unfold run nodesOf
    dsimp only
    rw [List.map_append, hshut]
    simp
  have hempty : (unwind w [] 0 (items.foldl (step w) ([], [])).1).1 = [] := by
    rw [← List.map_eq_nil_iff (f := Prod.fst), hopen]
    simp
  rw [hempty, settled, List.append_nil] at hledger
  rw [hrun]
  refine ⟨hnodes, horder, ?_⟩
  intro e he
  apply hvalues
  rw [← hledger]
  exact he

end Nesting

end DedupCommando
