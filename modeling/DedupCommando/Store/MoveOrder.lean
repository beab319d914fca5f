import DedupCommando.Store.MoveTrack

/-!
# The diff of two scans and the order of their rows

* `candidates` — the new rows a vanished row may move to: those of its inode, else of its digest.
* `Uncontested` — nobody is left over: the rows that may move to a new row are as many as the new
  rows they may move to, and none of these is at an old pathname.
* `Settled` — the verdict that depends on no order; `turn_settled` is one turn.
* `diff_order_free` — **what the two scans both hold is reported the same in every order; the
  rest is too when no match is contested.**
* `not_order_free` — runs in which each way of contesting a match makes the order matter.
-/

set_option autoImplicit false

namespace DedupCommando

namespace MoveTrack

/-! ## Candidates -/

def inodePeers (new : List FileRow) (o : FileRow) : List FileRow :=
  (byInode new o).filter fun nr => decide (nr.size = o.size)

def hashPeers (new : List FileRow) (o : FileRow) : List FileRow :=
  match o.hash with
  | none => []
  | some hash => byHash new hash

def candidates (new : List FileRow) (o : FileRow) : List FileRow :=
  if inodePeers new o = [] then hashPeers new o else inodePeers new o

/-- The old rows whose pathname is gone. -/
def vanished (old new : List FileRow) : List FileRow :=
  old.filter fun o => decide (o.path ∉ new.map FileRow.path)

/-- Nobody takes what another one needs. -/
structure Uncontested (old new : List FileRow) : Prop where
  /-- No candidate is at a pathname of the old scan. -/
  fresh : ∀ o ∈ vanished old new, ∀ c ∈ candidates new o, c.path ∉ old.map FileRow.path
  /-- Two vanished rows with a common candidate have all candidates in common. -/
  apart : ∀ o ∈ vanished old new, ∀ o' ∈ vanished old new,
    ∀ c ∈ candidates new o, c ∈ candidates new o' → ∀ d ∈ candidates new o, d ∈ candidates new o'
  /-- And they are as many as their candidates. -/
  enough : ∀ o ∈ vanished old new, ∀ c ∈ candidates new o,
    ((vanished old new).filter fun o' => decide (c ∈ candidates new o')).length =
      (candidates new o).length

theorem inodePeers_sub (new : List FileRow) (o : FileRow) : (inodePeers new o).Sublist new :=
  List.filter_sublist.trans List.filter_sublist

theorem hashPeers_sub (new : List FileRow) (o : FileRow) : (hashPeers new o).Sublist new := by
  unfold hashPeers
  split
  · exact List.nil_sublist _
  · exact List.filter_sublist

theorem candidates_sub (new : List FileRow) (o : FileRow) : (candidates new o).Sublist new := by
  unfold candidates
  split
  · exact hashPeers_sub new o
  · exact inodePeers_sub new o

theorem mem_vanished {old new : List FileRow} {o : FileRow} :
    o ∈ vanished old new ↔ o ∈ old ∧ atPath new o.path = none := by
  simp [vanished, atPath_none]

theorem vanished_split {new before after : List FileRow} {o : FileRow}
    (hgone : atPath new o.path = none) :
    vanished (before ++ o :: after) new = vanished before new ++ o :: vanished after new := by
  have hpath := atPath_none.mp hgone
  rw [vanished, List.filter_append, List.filter_cons, if_pos (by simpa using hpath)]
  rfl

theorem freeByInode_mem {new : List FileRow} {taken : List Path} {o nr : FileRow}
    (h : freeByInode new taken o = some nr) : nr ∈ inodePeers new o := by
  obtain ⟨hmem, hsize, -⟩ := freeByInode_some h
  exact List.mem_filter.mpr ⟨hmem, decide_eq_true hsize⟩

theorem freeByHash_mem {new : List FileRow} {taken : List Path} {o nr : FileRow}
    (h : freeByHash new taken o = some nr) : nr ∈ hashPeers new o := by
  obtain ⟨hash, hhash, hmem, -⟩ := freeByHash_some h
  unfold hashPeers
  rw [hhash]
  exact hmem

/-- A candidate by inode that is free is found. -/
theorem freeByInode_of_free {new : List FileRow} {taken : List Path} {o c : FileRow}
    (hc : c ∈ inodePeers new o) (hfree : c.path ∉ taken) :
    freeByInode new taken o ≠ none := by
  obtain ⟨hmem, hsize⟩ := List.mem_filter.mp hc
  intro hnone
  have hno := List.find?_eq_none.mp hnone c hmem
  exact hno (decide_eq_true ⟨of_decide_eq_true hsize, hfree⟩)

theorem freeByHash_of_free {new : List FileRow} {taken : List Path} {o c : FileRow}
    (hgone : atPath new o.path = none) (hc : c ∈ hashPeers new o) (hfree : c.path ∉ taken) :
    freeByHash new taken o ≠ none := by
  have hnew : c ∈ new := (hashPeers_sub new o).subset hc
  have hne : c.path ≠ o.path := fun h =>
    atPath_none.mp hgone (h ▸ List.mem_map_of_mem hnew)
  unfold hashPeers at hc
  unfold freeByHash
  cases hhash : o.hash with
  | none => simp [hhash] at hc
  | some hash =>
    rw [hhash] at hc
    intro hnone
    exact List.find?_eq_none.mp hnone c hc (decide_eq_true ⟨hne, hfree⟩)

/-! ## Verdicts that depend on no order -/

/-- The verdict of an old row, up to the choice among its candidates. -/
def Settled (new : List FileRow) (e : FileRow × Verdict) : Prop :=
  match e.2 with
  | .unchanged nr => atPath new e.1.path = some nr ∧ stays new e.1 = true
  | .modified nr => atPath new e.1.path = some nr ∧ stays new e.1 = false
  | .movedByInode nr => atPath new e.1.path = none ∧ nr ∈ inodePeers new e.1
  | .movedByHash nr =>
    atPath new e.1.path = none ∧ inodePeers new e.1 = [] ∧ nr ∈ hashPeers new e.1
  | .deleted => atPath new e.1.path = none ∧ candidates new e.1 = []

/-- What a settled verdict takes: the pathname of its row, or of one of its candidates. -/
theorem Settled.takes {new : List FileRow} {o : FileRow} {v : Verdict} {path : Path}
    (h : Settled new (o, v)) (hp : path ∈ v.takes) :
    (atPath new o.path ≠ none ∧ path = o.path) ∨
      (atPath new o.path = none ∧ ∃ c ∈ candidates new o, c.path = path) := by
  cases v with
  | unchanged nr | modified nr =>
    obtain ⟨hat, -⟩ := h
    dsimp only at hat
    left
    rw [hat]
    refine ⟨by simp, ?_⟩
    rw [← (atPath_some hat).2]
    exact List.mem_singleton.mp hp
  | movedByInode nr =>
    obtain ⟨hat, hmem⟩ := h
    refine .inr ⟨hat, nr, ?_, (List.mem_singleton.mp hp).symm⟩
    rw [candidates, if_neg (List.ne_nil_of_mem hmem)]
    exact hmem
  | movedByHash nr =>
    obtain ⟨hat, hnone, hmem⟩ := h
    refine .inr ⟨hat, nr, ?_, (List.mem_singleton.mp hp).symm⟩
    rw [candidates, if_pos hnone]
    exact hmem
  | deleted => exact absurd hp List.not_mem_nil

/-- One turn is settled when some candidate is free, or there is none. -/
theorem judge_settled {new : List FileRow} (hdist : (new.map FileRow.path).Nodup)
    (taken : List Path) (o : FileRow)
    (hfree : atPath new o.path = none → candidates new o = [] ∨
      ∃ c ∈ candidates new o, c.path ∉ taken) : Settled new (o, judge new taken o) := by
  obtain ⟨nr, hat, hsize, htime, hv⟩ | ⟨nr, hat, hdiff, hv⟩ | ⟨nr, hat, hinode, hv⟩ |
    ⟨nr, hat, hno, hhash, hv⟩ | ⟨hat, hno, hnoHash, hv⟩ := judge_cases new taken o
  all_goals rw [hv]
  · exact ⟨hat, (stays_iff hdist hat).mpr ⟨hsize, htime⟩⟩
  · refine ⟨hat, ?_⟩
    rw [Bool.eq_false_iff]
    exact fun h => hdiff ((stays_iff hdist hat).mp h)
  · exact ⟨hat, freeByInode_mem hinode⟩
  · refine ⟨hat, ?_, freeByHash_mem hhash⟩
    by_contra hpeers
    have hcand : candidates new o = inodePeers new o := if_neg hpeers
    rw [hcand] at hfree
    obtain hnil | ⟨c, hc, hcfree⟩ := hfree hat
    · exact hpeers hnil
    · exact freeByInode_of_free hc hcfree hno
  · refine ⟨hat, ?_⟩
    obtain hnil | ⟨c, hc, hcfree⟩ := hfree hat
    · exact hnil
    · exfalso
      by_cases hpeers : inodePeers new o = []
      · rw [candidates, if_pos hpeers] at hc
        exact freeByHash_of_free hat hc hcfree hnoHash
      · rw [candidates, if_neg hpeers] at hc
        exact freeByInode_of_free hc hcfree hno

/-! ## Counting the rows that may take a new row -/

/-- The vanished rows of a list of verdicts that may move to `c`. -/
def claimants (new : List FileRow) (c : FileRow) (vs : List (FileRow × Verdict)) :
    List (FileRow × Verdict) :=
  vs.filter fun e => decide (e.1.path ∉ new.map FileRow.path ∧ c ∈ candidates new e.1)

theorem length_claimants (new : List FileRow) (c : FileRow) (taken : List Path)
    (rows : List FileRow) : (claimants new c (verdicts new taken rows)).length =
      ((vanished rows new).filter fun o => decide (c ∈ candidates new o)).length := by
  have hmap : (claimants new c (verdicts new taken rows)).map Prod.fst =
      (vanished rows new).filter fun o => decide (c ∈ candidates new o) := by
    conv_rhs => rw [← map_fst_verdicts new taken rows]
    rw [vanished, List.filter_filter, List.filter_map, claimants]
    congr 1
    apply List.filter_congr
    intro e _
    simp [Bool.and_comm]
  rw [← hmap, List.length_map]

theorem mem_claimants {new : List FileRow} {c o : FileRow} {v : Verdict}
    {vs : List (FileRow × Verdict)} : (o, v) ∈ claimants new c vs ↔
      (o, v) ∈ vs ∧ atPath new o.path = none ∧ c ∈ candidates new o := by
  simp [claimants, atPath_none]

theorem takes_length (v : Verdict) : v.takes.length ≤ 1 := by
  cases v <;> simp [Verdict.takes]

/-- A verdict takes one pathname at most. -/
theorem takenBy_length : ∀ vs : List (FileRow × Verdict), (takenBy vs).length ≤ vs.length
  | [] => Nat.le_refl _
  | (o, v) :: vs => by
    have ih := takenBy_length vs
    have hone := takes_length v
    rw [takenBy_cons, List.length_append, List.length_cons]
    omega

theorem mem_takenBy {path : Path} {vs : List (FileRow × Verdict)} :
    path ∈ takenBy vs ↔ ∃ o v, (o, v) ∈ vs ∧ path ∈ v.takes := by
  simp [takenBy]

/-- Who took a new row that is no pathname of the old scan could move to it. -/
theorem taker {old new : List FileRow} (hdist : (new.map FileRow.path).Nodup)
    {vs : List (FileRow × Verdict)} (hold : ∀ e ∈ vs, e.1 ∈ old)
    (hset : ∀ e ∈ vs, Settled new e) {c : FileRow} (hc : c ∈ new)
    (hfresh : c.path ∉ old.map FileRow.path) (htaken : c.path ∈ takenBy vs) :
    ∃ o v, (o, v) ∈ claimants new c vs ∧ c.path ∈ v.takes := by
  obtain ⟨o, v, hmem, htakes⟩ := mem_takenBy.mp htaken
  refine ⟨o, v, mem_claimants.mpr ⟨hmem, ?_⟩, htakes⟩
  obtain ⟨-, hpath⟩ | ⟨hgone, d, hd, hpath⟩ := (hset _ hmem).takes htakes
  · exact absurd (hpath ▸ List.mem_map_of_mem (hold _ hmem)) hfresh
  · obtain rfl : d = c :=
      List.inj_on_of_nodup_map hdist ((candidates_sub new o).subset hd) hc hpath
    exact ⟨hgone, hd⟩

theorem mem_old_of_verdicts {new : List FileRow} {taken : List Path} {old : List FileRow}
    {e : FileRow × Verdict} (h : e ∈ verdicts new taken old) : e.1 ∈ old := by
  rw [← map_fst_verdicts new taken old]
  exact List.mem_map_of_mem h

/-- **At the turn of a vanished row one of its candidates is free.** The rows before it that could
have taken one are fewer than the candidates. -/
theorem free_candidate {old new before after : List FileRow} {o : FileRow}
    (hdist : (new.map FileRow.path).Nodup) (hun : Uncontested old new)
    (hold : old = before ++ o :: after)
    (hset : ∀ e ∈ verdicts new [] before, Settled new e) (hgone : atPath new o.path = none)
    (hne : candidates new o ≠ []) :
    ∃ c ∈ candidates new o, c.path ∉ takenBy (verdicts new [] before) := by
  by_contra hall
  push Not at hall
  have ho : o ∈ vanished old new := mem_vanished.mpr ⟨by rw [hold]; simp, hgone⟩
  obtain ⟨c, hc⟩ := List.exists_mem_of_ne_nil _ hne
  have hrows : ∀ e ∈ verdicts new [] before, e.1 ∈ old := fun e he => by
    rw [hold]
    exact List.mem_append_left _ (mem_old_of_verdicts he)
  -- every candidate is taken by a row that could take `c` as well
  have hsub : (candidates new o).map FileRow.path ⊆
      takenBy (claimants new c (verdicts new [] before)) := by
    intro path hpath
    obtain ⟨d, hd, rfl⟩ := List.mem_map.mp hpath
    obtain ⟨o', v, hclaim, htakes⟩ := taker hdist hrows hset
      ((candidates_sub new o).subset hd) (hun.fresh o ho d hd) (hall d hd)
    obtain ⟨hmem, hgone', hd'⟩ := mem_claimants.mp hclaim
    have ho' : o' ∈ vanished old new := mem_vanished.mpr
      ⟨by rw [hold]; exact List.mem_append_left _ (mem_old_of_verdicts hmem), hgone'⟩
    have hc' : c ∈ candidates new o' := hun.apart o ho o' ho' d hd hd' c hc
    exact mem_takenBy.mpr ⟨o', v, mem_claimants.mpr ⟨hmem, hgone', hc'⟩, htakes⟩
  have hnodup : ((candidates new o).map FileRow.path).Nodup :=
    hdist.sublist ((candidates_sub new o).map _)
  have hlen := (hnodup.subperm hsub).length_le
  rw [List.length_map] at hlen
  have hcap := takenBy_length (claimants new c (verdicts new [] before))
  rw [length_claimants] at hcap
  have henough := hun.enough o ho c hc
  rw [hold, vanished_split hgone, List.filter_append, List.filter_cons,
    if_pos (by simpa using hc), List.length_append, List.length_cons] at henough
  omega

/-- **Without a contest every verdict is settled.** -/
theorem verdicts_settled {old new : List FileRow} (hdist : (new.map FileRow.path).Nodup)
    (hun : Uncontested old new) (before : List FileRow) : ∀ after, old = before ++ after →
      ∀ e ∈ verdicts new [] before, Settled new e := by
  induction before using List.reverseRecOn with
  | nil => simp [verdicts]
  | append_singleton before o ih =>
    intro after hold e he
    have hsplit : old = before ++ o :: after := by simpa using hold
    have hbefore := ih (o :: after) hsplit
    rw [verdicts_append, List.nil_append, List.mem_append] at he
    obtain he | he := he
    · exact hbefore e he
    · obtain rfl : e = (o, judge new (takenBy (verdicts new [] before)) o) := by
        simpa [verdicts] using he
      apply judge_settled hdist
      intro hgone
      by_cases hne : candidates new o = []
      · exact .inl hne
      · exact .inr (free_candidate hdist hun hsplit hbefore hgone hne)

theorem Uncontested.noTheft {old new : List FileRow} (hdist : (new.map FileRow.path).Nodup)
    (hun : Uncontested old new) : NoTheft old new := by
  intro before o after hold hgone nr hnr hlater
  rw [matchedNew_eq] at hnr
  have hset := verdicts_settled hdist hun old [] (by simp)
    (o, judge new (takenBy (verdicts new [] before)) o)
    (mem_verdicts.mpr ⟨before, after, hold, by rw [List.nil_append]⟩)
  have htakes : nr.path ∈ (judge new (takenBy (verdicts new [] before)) o).takes := by
    rw [takes_vanished _ hgone, hnr]
    exact List.mem_singleton_self _
  obtain ⟨hkept, -⟩ | ⟨-, c, hc, hpath⟩ := hset.takes htakes
  · exact hkept hgone
  · apply hun.fresh o (mem_vanished.mpr ⟨by rw [hold]; simp, hgone⟩) c hc
    rw [hpath, hold, List.map_append, List.map_cons]
    exact List.mem_append_right _ (List.mem_cons_of_mem _ hlater)

theorem takenBy_sublist {vs ws : List (FileRow × Verdict)} (h : vs.Sublist ws) :
    (takenBy vs).Sublist (takenBy ws) := by
  induction h with
  | slnil => exact List.Sublist.refl _
  | cons e _ ih =>
    rw [takenBy_cons]
    exact ih.trans (List.sublist_append_right _ _)
  | cons_cons e _ ih =>
    rw [takenBy_cons, takenBy_cons]
    exact (List.Sublist.refl _).append ih

/-- A row that may move takes one pathname. -/
theorem takes_claimant {new : List FileRow} {c o : FileRow} {v : Verdict}
    (hset : Settled new (o, v)) (hc : c ∈ candidates new o) :
    v.takes.length = 1 := by
  cases v with
  | deleted =>
    obtain ⟨-, hnil⟩ := hset
    dsimp only at hnil
    rw [hnil] at hc
    exact absurd hc List.not_mem_nil
  | unchanged nr | modified nr | movedByInode nr | movedByHash nr => rfl

theorem length_takenBy_claimants {new : List FileRow} {c : FileRow} :
    ∀ {vs : List (FileRow × Verdict)}, (∀ e ∈ vs, Settled new e ∧
      c ∈ candidates new e.1) → (takenBy vs).length = vs.length
  | [], _ => rfl
  | (o, v) :: vs, h => by
    obtain ⟨hset, hc⟩ := h (o, v) List.mem_cons_self
    have ih := length_takenBy_claimants fun e he => h e (List.mem_cons_of_mem _ he)
    rw [takenBy_cons, List.length_append, takes_claimant hset hc, ih, List.length_cons]
    omega

/-- **In the end every candidate is taken.** -/
theorem candidates_taken {old new : List FileRow} (holds : (old.map FileRow.path).Nodup)
    (hdist : (new.map FileRow.path).Nodup) (hun : Uncontested old new) {o c : FileRow}
    (ho : o ∈ vanished old new) (hc : c ∈ candidates new o) :
    c.path ∈ takenBy (verdicts new [] old) := by
  have hset := verdicts_settled hdist hun old [] (by simp)
  have hnodup := (taken_nodup holds (hun.noTheft hdist) old [] (by simp)).1
  have hclaim : ∀ e ∈ claimants new c (verdicts new [] old), Settled new e ∧
      c ∈ candidates new e.1 := by
    rintro ⟨o', v⟩ he
    obtain ⟨hmem, -, hc'⟩ := mem_claimants.mp he
    exact ⟨hset _ hmem, hc'⟩
  have hlen : (takenBy (claimants new c (verdicts new [] old))).length =
      ((candidates new o).map FileRow.path).length := by
    rw [length_takenBy_claimants hclaim, length_claimants, hun.enough o ho c hc, List.length_map]
  have hsub : takenBy (claimants new c (verdicts new [] old)) ⊆
      (candidates new o).map FileRow.path := by
    intro path hpath
    obtain ⟨o', v, he, htakes⟩ := mem_takenBy.mp hpath
    obtain ⟨hmem, hgone, hc'⟩ := mem_claimants.mp he
    obtain ⟨hkept, -⟩ | ⟨-, d, hd, rfl⟩ := (hset _ hmem).takes htakes
    · exact absurd hgone hkept
    · have ho' : o' ∈ vanished old new := mem_vanished.mpr ⟨mem_old_of_verdicts hmem, hgone⟩
      exact List.mem_map_of_mem (hun.apart o' ho' o ho c hc' hc d hd)
  have hsublist : (takenBy (claimants new c (verdicts new [] old))).Sublist
      (takenBy (verdicts new [] old)) := takenBy_sublist List.filter_sublist
  have hperm := ((hnodup.sublist hsublist).subperm hsub).perm_of_length_le (Nat.le_of_eq hlen.symm)
  exact hsublist.subset (hperm.symm.subset (List.mem_map_of_mem hc))

/-! ## The report without the order -/

/-- The old pathnames that the report does not name: those it counts as unchanged. -/
def DiffReport.unreported (r : DiffReport) (old : List FileRow) : List Path :=
  (old.map FileRow.path).filter fun p => decide (p ∉ r.ofOld.filterMap FileChange.oldPath)

/-- The pathname is still there, with another size or time. -/
def changed (new : List FileRow) (o : FileRow) : Bool :=
  decide (o.path ∈ new.map FileRow.path) && !stays new o

/-- No vanished row may move to this new row, and it is at no old pathname. -/
def unclaimed (old new : List FileRow) (nr : FileRow) : Bool :=
  decide (nr.path ∉ old.map FileRow.path ∧ ∀ o ∈ vanished old new, nr ∉ candidates new o)

/-- A list made of verdicts by a function of the rows alone. -/
theorem filterMap_rows {β : Type} {new : List FileRow} {taken : List Path} {old : List FileRow}
    {f : FileRow × Verdict → Option β} (p : FileRow → Bool) (g : FileRow → β)
    (h : ∀ e ∈ verdicts new taken old, f e = if p e.1 then some (g e.1) else none) :
    (verdicts new taken old).filterMap f = (old.filter p).map g := by
  conv_rhs => rw [← map_fst_verdicts new taken old]
  revert h
  generalize verdicts new taken old = vs
  intro h
  induction vs with
  | nil => rfl
  | cons e vs ih =>
    have hhead := h e List.mem_cons_self
    rw [List.filterMap_cons, ih fun e he => h e (List.mem_cons_of_mem _ he), hhead]
    cases hp : p e.1 <;> simp [hp]

theorem modifiedOf_verdicts {new : List FileRow} (hdist : (new.map FileRow.path).Nodup)
    (taken : List Path) (old : List FileRow) : (verdicts new taken old).filterMap modifiedOf =
      (old.filter (changed new)).map fun o => .modified o.path o.path := by
  apply filterMap_rows
  rintro ⟨o, v⟩ he
  obtain ⟨before, after, -, rfl⟩ := mem_verdicts.mp he
  have hmem : ∀ nr, atPath new o.path = some nr → o.path ∈ new.map FileRow.path := by
    intro nr hat
    rw [← (atPath_some hat).2]
    exact List.mem_map_of_mem (atPath_some hat).1
  obtain ⟨nr, hat, hsize, htime, hv⟩ | ⟨nr, hat, hdiff, hv⟩ | ⟨nr, hat, -, hv⟩ |
    ⟨nr, hat, -, -, hv⟩ | ⟨hat, -, -, hv⟩ :=
      judge_cases new (taken ++ takenBy (verdicts new taken before)) o
  all_goals rw [hv]
  · have hs : stays new o = true := (stays_iff hdist hat).mpr ⟨hsize, htime⟩
    simp [modifiedOf, changed, hs]
  · have hs : stays new o = false := by
      rw [Bool.eq_false_iff]
      exact fun h => hdiff ((stays_iff hdist hat).mp h)
    have hc : changed new o = true := by
      rw [changed, hs, decide_eq_true (hmem nr hat)]
      rfl
    dsimp only [modifiedOf]
    rw [if_pos hc, (atPath_some hat).2]
  all_goals
    have hc : changed new o = false := by
      rw [changed, decide_eq_false (atPath_none.mp hat)]
      rfl
    simp [modifiedOf, hc]

/-- What is unchanged is what the report does not name. -/
theorem unreported_eq {r : DiffReport} {old new : List FileRow}
    (holds : (old.map FileRow.path).Nodup) (hdist : (new.map FileRow.path).Nodup)
    (hout : Outcome old new r) : (r.unreported old).Perm (unchangedPaths old new) := by
  have hcat := categories_old (verdicts new [] old)
  have hrows : (verdicts new [] old).map (fun e => e.1.path) = old.map FileRow.path := by
    conv_rhs => rw [← map_fst_verdicts new [] old]
    rw [List.map_map]
    rfl
  rw [unchangedOf_verdicts hdist, hrows, ← hout.modified, ← hout.movedInode, ← hout.movedHash,
    ← hout.deleted] at hcat
  change (_ ++ r.ofOld.filterMap FileChange.oldPath).Perm _ at hcat
  have hnodup := hcat.nodup_iff.mpr holds
  obtain ⟨hsame, -, hapart⟩ := List.nodup_append.mp hnodup
  rw [DiffReport.unreported]
  refine (hcat.symm.filter _).trans ?_
  rw [List.filter_append]
  have hleft : (unchangedPaths old new).filter
      (fun p => decide (p ∉ r.ofOld.filterMap FileChange.oldPath)) = unchangedPaths old new := by
    rw [List.filter_eq_self]
    intro p hp
    exact decide_eq_true fun hrep => hapart p hp p hrep rfl
  have hright : (r.ofOld.filterMap FileChange.oldPath).filter
      (fun p => decide (p ∉ r.ofOld.filterMap FileChange.oldPath)) = [] := by
    rw [List.filter_eq_nil_iff]
    intro p hp hno
    exact of_decide_eq_true hno hp
  rw [hleft, hright, List.append_nil]

/-- The moves and what is left, when no match is contested. -/
structure Closed (old new : List FileRow) (r : DiffReport) : Prop where
  movedInode : r.movedInode.map FileChange.oldPath =
    ((vanished old new).filter fun o => decide (inodePeers new o ≠ [])).map fun o => some o.path
  movedHash : r.movedHash.map FileChange.oldPath =
    ((vanished old new).filter fun o =>
      decide (inodePeers new o = [] ∧ hashPeers new o ≠ [])).map fun o => some o.path
  deleted : r.deleted =
    ((vanished old new).filter fun o => decide (candidates new o = [])).map fun o =>
      .deleted o.path
  arrived : r.new = ((new.filter (unclaimed old new)).map (arrival old)).filter fun c => !isDup c
  copies : r.newDupCandidates =
    ((new.filter (unclaimed old new)).map (arrival old)).filter isDup

/-- A settled verdict by the category of its row. -/
theorem Settled.category {new : List FileRow} {o : FileRow} {v : Verdict}
    (h : Settled new (o, v)) :
    ((movedInodeOf (o, v)).map FileChange.oldPath =
      if o.path ∉ new.map FileRow.path ∧ inodePeers new o ≠ [] then some (some o.path) else none) ∧
    ((movedHashOf (o, v)).map FileChange.oldPath =
      if o.path ∉ new.map FileRow.path ∧ inodePeers new o = [] ∧ hashPeers new o ≠ [] then
        some (some o.path) else none) ∧
    (deletedOf (o, v) =
      if o.path ∉ new.map FileRow.path ∧ candidates new o = [] then some (.deleted o.path)
        else none) := by
  simp only [← atPath_none]
  cases v with
  | unchanged nr | modified nr =>
    obtain ⟨hat, -⟩ := h
    dsimp only at hat
    simp [movedInodeOf, movedHashOf, deletedOf, hat]
  | movedByInode nr =>
    obtain ⟨hat, hmem⟩ := h
    dsimp only at hat hmem
    have hne := List.ne_nil_of_mem hmem
    simp [movedInodeOf, movedHashOf, deletedOf, candidates, hat, hne, FileChange.oldPath]
  | movedByHash nr =>
    obtain ⟨hat, hnone, hmem⟩ := h
    dsimp only at hat hnone hmem
    have hne := List.ne_nil_of_mem hmem
    simp [movedInodeOf, movedHashOf, deletedOf, candidates, hat, hnone, hne, FileChange.oldPath]
  | deleted =>
    obtain ⟨hat, hnil⟩ := h
    dsimp only at hat hnil
    have hinode : inodePeers new o = [] := by
      by_contra hne
      rw [candidates, if_neg hne] at hnil
      exact hne hnil
    have hhash : hashPeers new o = [] := by
      rw [candidates, if_pos hinode] at hnil
      exact hnil
    simp [movedInodeOf, movedHashOf, deletedOf, candidates, hat, hinode, hhash]

theorem closed_of_uncontested {r : DiffReport} {old new : List FileRow}
    (holds : (old.map FileRow.path).Nodup) (hdist : (new.map FileRow.path).Nodup)
    (hun : Uncontested old new) (hout : Outcome old new r) : Closed old new r := by
  have hset := verdicts_settled hdist hun old [] (by simp)
  have hleft : leftOver new (takenBy (verdicts new [] old)) = new.filter (unclaimed old new) := by
    apply List.filter_congr
    intro nr hnr
    rw [unclaimed, decide_eq_decide]
    constructor
    · intro hfree
      refine ⟨fun hold => hfree (kept_taken new old _ hold (List.mem_map_of_mem hnr)), ?_⟩
      intro o ho hc
      exact hfree (candidates_taken holds hdist hun ho hc)
    · rintro ⟨hfresh, hno⟩ htaken
      obtain ⟨o, v, hclaim, -⟩ := taker hdist (fun e he => mem_old_of_verdicts he) hset hnr hfresh
        htaken
      obtain ⟨hmem, hgone, hc⟩ := mem_claimants.mp hclaim
      exact hno o (mem_vanished.mpr ⟨mem_old_of_verdicts hmem, hgone⟩) hc
  constructor
  · rw [hout.movedInode, List.map_filterMap, vanished, List.filter_filter]
    apply filterMap_rows
    rintro ⟨o, v⟩ he
    rw [(hset _ he).category.1]
    exact if_congr (by rw [Bool.and_eq_true, decide_eq_true_eq, decide_eq_true_eq, and_comm])
      rfl rfl
  · rw [hout.movedHash, List.map_filterMap, vanished, List.filter_filter]
    apply filterMap_rows
    rintro ⟨o, v⟩ he
    rw [(hset _ he).category.2.1]
    exact if_congr (by rw [Bool.and_eq_true, decide_eq_true_eq, decide_eq_true_eq, and_comm])
      rfl rfl
  · rw [hout.deleted, vanished, List.filter_filter]
    apply filterMap_rows
    rintro ⟨o, v⟩ he
    rw [(hset _ he).category.2.2]
    exact if_congr (by rw [Bool.and_eq_true, decide_eq_true_eq, decide_eq_true_eq, and_comm])
      rfl rfl
  · rw [hout.arrived, hleft]
  · rw [hout.copies, hleft]

/-! ## Another order of the rows -/

section Order

variable {old old' new new' : List FileRow} (hold : old'.Perm old) (hnew : new'.Perm new)

include hnew

theorem inodePeers_perm (o : FileRow) : (inodePeers new' o).Perm (inodePeers new o) :=
  (hnew.filter _).filter _

theorem hashPeers_perm (o : FileRow) : (hashPeers new' o).Perm (hashPeers new o) := by
  unfold hashPeers
  split
  · exact List.Perm.nil
  · exact hnew.filter _

theorem inodePeers_nil (o : FileRow) : inodePeers new' o = [] ↔ inodePeers new o = [] := by
  have hperm := inodePeers_perm hnew o
  constructor
  · intro h
    exact List.perm_nil.mp (h ▸ hperm.symm)
  · intro h
    exact List.perm_nil.mp (h ▸ hperm)

theorem hashPeers_nil (o : FileRow) : hashPeers new' o = [] ↔ hashPeers new o = [] := by
  have hperm := hashPeers_perm hnew o
  constructor
  · intro h
    exact List.perm_nil.mp (h ▸ hperm.symm)
  · intro h
    exact List.perm_nil.mp (h ▸ hperm)

theorem candidates_perm (o : FileRow) : (candidates new' o).Perm (candidates new o) := by
  unfold candidates
  by_cases h : inodePeers new o = []
  · rw [if_pos h, if_pos ((inodePeers_nil hnew o).mpr h)]
    exact hashPeers_perm hnew o
  · rw [if_neg h, if_neg (fun h' => h ((inodePeers_nil hnew o).mp h'))]
    exact inodePeers_perm hnew o

theorem candidates_nil (o : FileRow) : candidates new' o = [] ↔ candidates new o = [] := by
  have hperm := candidates_perm hnew o
  constructor
  · intro h
    exact List.perm_nil.mp (h ▸ hperm.symm)
  · intro h
    exact List.perm_nil.mp (h ▸ hperm)

theorem stays_perm (o : FileRow) : stays new' o = stays new o := by
  rw [Bool.eq_iff_iff, stays, stays, List.any_eq_true, List.any_eq_true]
  simp only [hnew.mem_iff]

theorem changed_perm (o : FileRow) : changed new' o = changed new o := by
  unfold changed
  rw [stays_perm hnew]
  simp only [(hnew.map FileRow.path).mem_iff]

include hold

theorem vanished_perm : (vanished old' new').Perm (vanished old new) := by
  unfold vanished
  simp only [(hnew.map FileRow.path).mem_iff]
  exact hold.filter _

/-- Whether a match is contested does not depend on the order either. -/
theorem uncontested_perm (hun : Uncontested old new) : Uncontested old' new' := by
  have hvan := vanished_perm hold hnew
  have hmem : ∀ o c, c ∈ candidates new' o ↔ c ∈ candidates new o := fun o c =>
    (candidates_perm hnew o).mem_iff
  constructor
  · intro o ho c hc
    rw [(hold.map FileRow.path).mem_iff]
    exact hun.fresh o (hvan.mem_iff.mp ho) c ((hmem o c).mp hc)
  · intro o ho o' ho' c hc hc' d hd
    rw [hmem]
    exact hun.apart o (hvan.mem_iff.mp ho) o' (hvan.mem_iff.mp ho') c ((hmem o c).mp hc)
      ((hmem o' c).mp hc') d ((hmem o d).mp hd)
  · intro o ho c hc
    rw [(candidates_perm hnew o).length_eq, ← hun.enough o (hvan.mem_iff.mp ho) c ((hmem o c).mp hc)]
    simp only [hmem]
    exact (hvan.filter _).length_eq

theorem unclaimed_perm (nr : FileRow) : unclaimed old' new' nr = unclaimed old new nr := by
  unfold unclaimed
  rw [decide_eq_decide, (hold.map FileRow.path).mem_iff]
  simp only [(vanished_perm hold hnew).mem_iff, (candidates_perm hnew _).mem_iff]

end Order

section Arrivals

variable {old old' : List FileRow} (hold : old'.Perm old)

include hold

theorem peers_nil (hash : Bytes) : peers old' hash = [] ↔ peers old hash = [] := by
  have hperm : (peers old' hash).Perm (peers old hash) := (hold.filter _).map _
  constructor
  · intro h
    exact List.perm_nil.mp (h ▸ hperm.symm)
  · intro h
    exact List.perm_nil.mp (h ▸ hperm)

/-- The order of the old rows shows only in the order of the peers. -/
theorem arrival_perm (nr : FileRow) : (isDup (arrival old' nr) = isDup (arrival old nr)) ∧
    (isDup (arrival old nr) = false → arrival old' nr = arrival old nr) := by
  unfold arrival
  cases nr.hash with
  | none => exact ⟨rfl, fun _ => rfl⟩
  | some hash =>
    dsimp only
    by_cases h : peers old hash = []
    · rw [if_pos h, if_pos ((peers_nil hold hash).mpr h)]
      exact ⟨rfl, fun _ => rfl⟩
    · rw [if_neg h, if_neg (fun h' => h ((peers_nil hold hash).mp h'))]
      exact ⟨rfl, fun hdup => by simp [isDup] at hdup⟩

theorem arrived_perm (rows : List FileRow) :
    ((rows.map (arrival old')).filter fun c => !isDup c) =
      (rows.map (arrival old)).filter fun c => !isDup c := by
  induction rows with
  | nil => rfl
  | cons nr rows ih =>
    obtain ⟨hdup, hsame⟩ := arrival_perm hold nr
    rw [List.map_cons, List.map_cons, List.filter_cons, List.filter_cons, ih, hdup]
    cases h : isDup (arrival old nr) with
    | true => rfl
    | false => rw [hsame h]

theorem copies_perm (rows : List FileRow) :
    ((rows.map (arrival old')).filter isDup).filterMap FileChange.newPath =
      ((rows.map (arrival old)).filter isDup).filterMap FileChange.newPath := by
  induction rows with
  | nil => rfl
  | cons nr rows ih =>
    obtain ⟨hdup, -⟩ := arrival_perm hold nr
    rw [List.map_cons, List.map_cons, List.filter_cons, List.filter_cons, hdup]
    cases h : isDup (arrival old nr) with
    | true =>
      simp only [if_true, List.filterMap_cons, arrival_newPath, ih]
    | false =>
      simp only [Bool.false_eq_true, if_false, ih]

end Arrivals

/-- What both scans hold is reported the same. -/
structure SameHeld (old old' : List FileRow) (r r' : DiffReport) : Prop where
  count : r'.unchangedCount = r.unchangedCount
  unchanged : (r'.unreported old').Perm (r.unreported old)
  modified : r'.modified.Perm r.modified

/-- The moves are of the same files, and the same pathnames are deleted or new. -/
structure SameMoves (r r' : DiffReport) : Prop where
  deleted : r'.deleted.Perm r.deleted
  movedInode : (r'.movedInode.map FileChange.oldPath).Perm (r.movedInode.map FileChange.oldPath)
  inodeMoves : r'.movedInode.length = r.movedInode.length
  movedHash : (r'.movedHash.map FileChange.oldPath).Perm (r.movedHash.map FileChange.oldPath)
  hashMoves : r'.movedHash.length = r.movedHash.length
  new : r'.new.Perm r.new
  copies : (r'.newDupCandidates.filterMap FileChange.newPath).Perm
    (r.newDupCandidates.filterMap FileChange.newPath)

/-- **A diff of the same rows in another order** counts and names the same unchanged and modified
pathnames. When no match is contested it also deletes, moves and finds the same ones, and a file
whose inode is found at a new pathname is moved by inode. -/
theorem diff_order_free (oldScanId newScanId : Int) (root : Path) (old old' new new' : Manifest)
    (hold : old'.rows.Perm old.rows) (hnew : new'.rows.Perm new.rows) :
    SameHeld (old.under root).rows (old'.under root).rows
        (diff oldScanId newScanId root old.rows new.rows)
        (diff oldScanId newScanId root old'.rows new'.rows) ∧
      (Uncontested (old.under root).rows (new.under root).rows →
        SameMoves (diff oldScanId newScanId root old.rows new.rows)
          (diff oldScanId newScanId root old'.rows new'.rows) ∧
        ∀ o ∈ vanished (old.under root).rows (new.under root).rows,
          inodePeers (new.under root).rows o ≠ [] →
            some o.path ∈ (diff oldScanId newScanId root old'.rows new'.rows).movedInode.map
              FileChange.oldPath) := by
  have hout := diff_outcome oldScanId newScanId root old.rows new.rows
  have hout' := diff_outcome oldScanId newScanId root old'.rows new'.rows
  have holds := (old.under root).distinct
  have hnews := (new.under root).distinct
  have holds' := (old'.under root).distinct
  have hnews' := (new'.under root).distinct
  have hos : (old'.under root).rows.Perm (old.under root).rows := hold.filter _
  have hns : (new'.under root).rows.Perm (new.under root).rows := hnew.filter _
  change Outcome (old.under root).rows (new.under root).rows _ at hout
  change Outcome (old'.under root).rows (new'.under root).rows _ at hout'
  generalize (old.under root).rows = os at *
  generalize (new.under root).rows = ns at *
  generalize (old'.under root).rows = os' at *
  generalize (new'.under root).rows = ns' at *
  generalize diff oldScanId newScanId root old.rows new.rows = r at *
  generalize diff oldScanId newScanId root old'.rows new'.rows = r' at *
  have hsame : (unchangedPaths os' ns').Perm (unchangedPaths os ns) := by
    unfold unchangedPaths
    rw [funext (stays_perm hns)]
    exact (hos.filter _).map _
  refine ⟨⟨?_, ?_, ?_⟩, ?_⟩
  · rw [hout.unchanged, hout'.unchanged, unchangedOf_verdicts hnews, unchangedOf_verdicts hnews']
    exact hsame.length_eq
  · exact (unreported_eq holds' hnews' hout').trans
      (hsame.trans (unreported_eq holds hnews hout).symm)
  · rw [hout.modified, hout'.modified, modifiedOf_verdicts hnews, modifiedOf_verdicts hnews',
      funext (changed_perm hns)]
    exact (hos.filter _).map _
  · intro hun
    have hclosed := closed_of_uncontested holds hnews hun hout
    have hclosed' := closed_of_uncontested holds' hnews' (uncontested_perm hos hns hun) hout'
    have hvan := vanished_perm hos hns
    have hinode : (r'.movedInode.map FileChange.oldPath).Perm
        (r.movedInode.map FileChange.oldPath) := by
      rw [hclosed.movedInode, hclosed'.movedInode]
      simp only [Ne, inodePeers_nil hns]
      exact (hvan.filter _).map _
    have hhash : (r'.movedHash.map FileChange.oldPath).Perm
        (r.movedHash.map FileChange.oldPath) := by
      rw [hclosed.movedHash, hclosed'.movedHash]
      simp only [Ne, inodePeers_nil hns, hashPeers_nil hns]
      exact (hvan.filter _).map _
    have hrows : (ns'.filter (unclaimed os' ns')).Perm (ns.filter (unclaimed os ns)) := by
      rw [funext (unclaimed_perm hos hns)]
      exact hns.filter _
    refine ⟨⟨?_, hinode, ?_, hhash, ?_, ?_, ?_⟩, ?_⟩
    · rw [hclosed.deleted, hclosed'.deleted]
      simp only [candidates_nil hns]
      exact (hvan.filter _).map _
    · simpa using hinode.length_eq
    · simpa using hhash.length_eq
    · rw [hclosed.arrived, hclosed'.arrived, arrived_perm hos]
      exact (hrows.map _).filter _
    · rw [hclosed.copies, hclosed'.copies, copies_perm hos]
      exact ((hrows.map _).filter _).filterMap _
    · intro o ho hne
      rw [hinode.mem_iff, hclosed.movedInode]
      exact List.mem_map_of_mem (List.mem_filter.mpr ⟨ho, decide_eq_true hne⟩)

/-! ## Runs -/

theorem isName_third : isName [99] = true := rfl

theorem isName_fourth : isName [100] = true := rfl

theorem isName_fifth : isName [101] = true := rfl

def fileA : FileRow := entry [97] isName_first 7 none
def fileB : FileRow := entry [98] isName_second 7 none
def fileC : FileRow := entry [99] isName_third 7 (some [1])
def fileD : FileRow := entry [100] isName_fourth 9 (some [1])
/-- Of another inode, with the content of `fileC` and `fileD`. -/
def fileE : FileRow := entry [101] isName_fifth 8 (some [1])

/-- Two hard links of one file that are both renamed. -/
theorem diff_order_free_sample :
    SameMoves (diff 1 2 [.rootDir] [fileA, fileB] [fileC, { fileD with inode := 7 }])
      (diff 1 2 [.rootDir] [fileB, fileA] [fileC, { fileD with inode := 7 }]) := by
  refine ((diff_order_free 1 2 [.rootDir] ⟨[fileA, fileB], by decide⟩ ⟨[fileB, fileA], by decide⟩
    ⟨[fileC, { fileD with inode := 7 }], by decide⟩ ⟨[fileC, { fileD with inode := 7 }], by decide⟩
    (List.Perm.swap _ _ _) (List.Perm.refl _)).2 ⟨?_, ?_, ?_⟩).1
  all_goals decide

/-- The order matters when a new row is wanted by two vanished rows, when a vanished row has two
candidates, when its candidate is at an old pathname, and when one row finds by content what
another finds by inode. -/
theorem not_order_free :
    (¬ (diff 1 2 [.rootDir] [fileB, fileA] [fileC]).deleted.Perm
      (diff 1 2 [.rootDir] [fileA, fileB] [fileC]).deleted) ∧
    (¬ (diff 1 2 [.rootDir] [fileA] [fileC, fileB]).new.Perm
      (diff 1 2 [.rootDir] [fileA] [fileB, fileC]).new) ∧
    (¬ (diff 1 2 [.rootDir] [fileB, fileA] [fileB]).deleted.Perm
      (diff 1 2 [.rootDir] [fileA, fileB] [fileB]).deleted) ∧
    (diff 1 2 [.rootDir] [fileA, fileE] [fileC, fileD]).movedInode =
      [.movedByInode fileA.path fileC.path] ∧
    (diff 1 2 [.rootDir] [fileE, fileA] [fileC, fileD]).movedInode = [] := by
  refine ⟨?_, ?_, ?_, ?_, ?_⟩
  all_goals decide

end MoveTrack

end DedupCommando
