import DedupCommando.Store.MoveTrack

/-!
# The matching a diff ought to be

* `offers` — the new rows a vanished row may move to, in the order it asks for them.
* `Matching` — rows at fresh pathnames for the vanished rows, each the first of its offers that no
  earlier row has: said of the two manifests, with no run of the loop.
* `Matching.turn_eq` — where there is such a matching, every turn of the loop takes its row.
* `partition_iff` — **a diff is a partition exactly when there is one**, and there is one where no
  offer of a vanished row is at the pathname of an old row behind it.
-/

set_option autoImplicit false

namespace DedupCommando

namespace MoveTrack

/-- The rows of the old row's inode and size and then those of its digest. -/
def offers (new : List FileRow) (o : FileRow) : List FileRow :=
  ((byInode new o).filter fun nr => decide (nr.size = o.size)) ++
    match o.hash with
    | none => []
    | some hash => byHash new hash

theorem offers_sub {new : List FileRow} {o nr : FileRow} (h : nr ∈ offers new o) : nr ∈ new := by
  unfold offers at h
  rw [List.mem_append] at h
  obtain h | h := h
  · exact (List.mem_filter.1 (List.mem_filter.1 h).1).1
  · split at h
    · exact absurd h List.not_mem_nil
    · exact (List.mem_filter.1 h).1

/-- A vanished row moves to the first of its offers that is free. -/
theorem destination_eq {new : List FileRow} {o : FileRow} (taken : List Path)
    (hgone : atPath new o.path = none) :
    destination new taken o = (offers new o).find? fun nr => decide (nr.path ∉ taken) := by
  have hinode : freeByInode new taken o =
      ((byInode new o).filter fun nr => decide (nr.size = o.size)).find?
        fun nr => decide (nr.path ∉ taken) := by
    rw [freeByInode, List.find?_filter]
    congr 1
    funext nr
    simp [Bool.decide_and]
  have hhash : freeByHash new taken o =
      (match o.hash with
        | none => []
        | some hash => byHash new hash).find? fun nr => decide (nr.path ∉ taken) := by
    unfold freeByHash
    cases o.hash with
    | none => rfl
    | some hash =>
      -- no new row is at the pathname that is gone
      refine List.find?_congr fun nr hnr => ?_
      have hne : nr.path ≠ o.path := fun heq =>
        atPath_none.1 hgone (heq ▸ List.mem_map_of_mem (List.mem_filter.1 hnr).1)
      simp [hne]
  rw [destination, offers, List.find?_append, hinode, hhash]

/-- Before a turn a new row is gone when its pathname is one of the old rows read so far, or a
    vanished one of them has it. -/
def Gone (new : List FileRow) (moves : FileRow → Option FileRow) (before : List FileRow)
    (nr : FileRow) : Prop :=
  nr.path ∈ before.map FileRow.path ∨
    ∃ o ∈ before, atPath new o.path = none ∧ moves o = some nr

/-- Every offer ahead of the one that is had is gone, and where none is had they all are. -/
def FirstLeft (gone : FileRow → Prop) (rows : List FileRow) : Option FileRow → Prop
  | none => ∀ nr ∈ rows, gone nr
  | some nr => ∃ ahead behind, rows = ahead ++ nr :: behind ∧ ∀ row ∈ ahead, gone row

/-- The vanished rows, in the order of the old manifest, have each the first of their offers that
    is left, and what they have is at no old pathname and had by one of them. -/
structure Matching (old new : List FileRow) (moves : FileRow → Option FileRow) : Prop where
  fresh : ∀ o ∈ old, atPath new o.path = none → ∀ nr, moves o = some nr →
    nr.path ∉ old.map FileRow.path
  once : ∀ o ∈ old, ∀ o' ∈ old, atPath new o.path = none → atPath new o'.path = none →
    ∀ nr, moves o = some nr → moves o' = some nr → o = o'
  turn : ∀ before o after, old = before ++ o :: after → atPath new o.path = none →
    FirstLeft (Gone new moves before) (offers new o) (moves o)

/-- No offer of a vanished row is at the pathname of an old row behind it. -/
def Apart (old new : List FileRow) : Prop :=
  ∀ before o after, old = before ++ o :: after → atPath new o.path = none →
    ∀ nr ∈ offers new o, nr.path ∉ after.map FileRow.path

theorem Apart.noTheft {old new : List FileRow} (h : Apart old new) : NoTheft old new := by
  intro before o after hold hgone nr hnr
  rw [Option.mem_def, destination_eq _ hgone] at hnr
  exact h before o after hold hgone nr (List.mem_of_find?_eq_some hnr)

/-! ## The turns of the loop and the matching -/

/-- When every turn so far took the row of the matching, what is taken is what is gone. -/
theorem taken_iff {new : List FileRow} (hnews : (new.map FileRow.path).Nodup)
    {moves : FileRow → Option FileRow} (before : List FileRow) :
    (∀ done o rest, before = done ++ o :: rest → atPath new o.path = none →
      destination new (takenBy (verdicts new [] done)) o = moves o) →
    ∀ nr ∈ new, nr.path ∈ takenBy (verdicts new [] before) ↔ Gone new moves before nr := by
  induction before using List.reverseRecOn with
  | nil => simp [verdicts, takenBy, Gone]
  | append_singleton before o ih =>
    intro hturns nr hnr
    have hbefore := ih (fun done o' rest hsplit => hturns done o' (rest ++ [o])
      (by rw [hsplit, List.append_assoc, List.cons_append])) nr hnr
    have hgone : Gone new moves (before ++ [o]) nr ↔ Gone new moves before nr ∨
        nr.path = o.path ∨ atPath new o.path = none ∧ moves o = some nr := by
      simp only [Gone, List.map_append, List.mem_append, List.map_cons, List.map_nil,
        List.mem_singleton, or_and_right, exists_or, exists_eq_left]
      exact or_or_or_comm
    rw [takenBy_snoc, List.mem_append, hbefore, hgone]
    refine or_congr_right ?_
    cases hat : atPath new o.path with
    | some kept => simp [takes_kept _ hat]
    | none =>
      have hne : nr.path ≠ o.path := fun heq =>
        atPath_none.1 hat (heq ▸ List.mem_map_of_mem hnr)
      rw [takes_vanished _ hat, hturns before o [] rfl hat]
      constructor
      · intro h
        obtain ⟨nr', hmoves, hpath⟩ : ∃ nr', moves o = some nr' ∧ nr'.path = nr.path := by
          simpa using h
        have hmem : nr' ∈ new := by
          rw [← hturns before o [] rfl hat] at hmoves
          exact (destination_free hmoves).1
        rw [List.inj_on_of_nodup_map hnews hmem hnr hpath] at hmoves
        exact .inr ⟨rfl, hmoves⟩
      · rintro (heq | ⟨-, hmoves⟩)
        · exact absurd heq hne
        · simp [hmoves]

theorem FirstLeft.mem {gone : FileRow → Prop} {rows : List FileRow} {nr : FileRow}
    (h : FirstLeft gone rows (some nr)) : nr ∈ rows := by
  obtain ⟨ahead, behind, rfl, -⟩ := h
  simp

theorem find?_of_firstLeft {rows : List FileRow} {taken : List Path} {gone : FileRow → Prop}
    {had : Option FileRow} (h : FirstLeft gone rows had)
    (htaken : ∀ nr ∈ rows, gone nr → nr.path ∈ taken) (hfree : ∀ nr, had = some nr → nr.path ∉ taken) :
    (rows.find? fun nr => decide (nr.path ∉ taken)) = had := by
  cases had with
  | none =>
    rw [List.find?_eq_none]
    intro nr hnr
    simpa using htaken nr hnr (h nr hnr)
  | some nr =>
    obtain ⟨ahead, behind, rfl, hahead⟩ := h
    rw [List.find?_eq_some_iff_append]
    refine ⟨decide_eq_true (hfree nr rfl), ahead, behind, rfl, fun row hrow => ?_⟩
    simpa using htaken row (List.mem_append_left _ hrow) (hahead row hrow)

theorem firstLeft_of_find? {rows : List FileRow} {taken : List Path} {gone : FileRow → Prop}
    {had : Option FileRow} (h : (rows.find? fun nr => decide (nr.path ∉ taken)) = had)
    (htaken : ∀ nr ∈ rows, nr.path ∈ taken → gone nr) : FirstLeft gone rows had := by
  cases had with
  | none =>
    intro nr hnr
    have hin := List.find?_eq_none.1 h nr hnr
    exact htaken nr hnr (by simpa using hin)
  | some nr =>
    obtain ⟨-, ahead, behind, rfl, hahead⟩ := List.find?_eq_some_iff_append.1 h
    refine ⟨ahead, behind, rfl, fun row hrow => ?_⟩
    have hin := hahead row hrow
    exact htaken row (List.mem_append_left _ hrow) (by simpa using hin)

/-- **Every turn takes the row of the matching.** -/
theorem Matching.turn_eq {old new : List FileRow} (holds : (old.map FileRow.path).Nodup)
    (hnews : (new.map FileRow.path).Nodup) {moves : FileRow → Option FileRow}
    (h : Matching old new moves) (before : List FileRow) : ∀ o after, old = before ++ o :: after →
      atPath new o.path = none →
      destination new (takenBy (verdicts new [] before)) o = moves o := by
  -- the turns before this one took theirs, so what is taken is what is gone
  induction hn : before.length using Nat.strong_induction_on generalizing before with
  | _ n ih =>
    intro o after hold hgone
    have hiff := @taken_iff new hnews moves before fun done o' rest hsplit hgone' =>
      ih done.length (by rw [← hn, hsplit]; simp) done rfl o' (rest ++ o :: after)
        (by rw [hold, hsplit, List.append_assoc, List.cons_append]) hgone'
    rw [destination_eq _ hgone]
    have hturn := h.turn before o after hold hgone
    have hmem : o ∈ old := by rw [hold]; simp
    refine find?_of_firstLeft hturn (fun nr hnr hleft => (hiff nr (offers_sub hnr)).2 hleft)
      fun nr hmoves htaken => ?_
    have hnr : nr ∈ new := offers_sub (FirstLeft.mem (hmoves ▸ hturn))
    obtain hread | ⟨o', ho', hgone', hmoves'⟩ := (hiff nr hnr).1 htaken
    · refine h.fresh o hmem hgone nr hmoves ?_
      rw [hold, List.map_append]
      exact List.mem_append_left _ hread
    · have hmem' : o' ∈ old := by
        rw [hold]
        exact List.mem_append_left _ ho'
      obtain rfl := h.once o' hmem' o hmem hgone' hgone nr hmoves' hmoves
      rw [hold, List.map_append, List.map_cons, List.nodup_middle, List.nodup_cons] at holds
      exact holds.1 (List.mem_append_left _ (List.mem_map_of_mem ho'))

theorem Matching.noTheft {old new : List FileRow} (holds : (old.map FileRow.path).Nodup)
    (hnews : (new.map FileRow.path).Nodup) {moves : FileRow → Option FileRow}
    (h : Matching old new moves) : NoTheft old new := by
  intro before o after hold hgone nr hnr hlater
  rw [matchedNew_eq, Option.mem_def, h.turn_eq holds hnews before o after hold hgone] at hnr
  refine h.fresh o (by rw [hold]; simp) hgone nr hnr ?_
  rw [hold, List.map_append, List.map_cons]
  exact List.mem_append_right _ (List.mem_cons_of_mem _ hlater)

/-- What a row takes at its own turn. -/
def ownTurn (old new : List FileRow) (o : FileRow) : Option FileRow :=
  destination new (takenBy (verdicts new [] (old.takeWhile fun row => decide (row ≠ o)))) o

theorem ownTurn_eq {old new before after : List FileRow} {o : FileRow}
    (holds : (old.map FileRow.path).Nodup) (hold : old = before ++ o :: after) :
    ownTurn old new o = destination new (takenBy (verdicts new [] before)) o := by
  have hnotin : o ∉ before := by
    rw [hold, List.map_append, List.map_cons, List.nodup_middle, List.nodup_cons] at holds
    exact fun hmem => holds.1 (List.mem_append_left _ (List.mem_map_of_mem hmem))
  have hbefore : (old.takeWhile fun row => decide (row ≠ o)) = before := by
    rw [hold, List.takeWhile_append_of_pos, List.takeWhile_cons_of_neg (by simp), List.append_nil]
    intro row hrow
    exact decide_eq_true fun heq => hnotin (heq ▸ hrow)
  rw [ownTurn, hbefore]

/-- What a row took at its turn is taken at every later one. -/
theorem ownTurn_taken {old new before after : List FileRow} {o nr : FileRow}
    (holds : (old.map FileRow.path).Nodup) (hold : old = before ++ after) (hmem : o ∈ before)
    (hgone : atPath new o.path = none) (hnr : ownTurn old new o = some nr) :
    nr.path ∈ takenBy (verdicts new [] before) := by
  obtain ⟨done, rest, rfl⟩ := List.append_of_mem hmem
  rw [ownTurn_eq holds (by rw [hold, List.append_assoc]; rfl)] at hnr
  rw [verdicts_append, takenBy, List.flatMap_append, ← takenBy, verdicts, List.nil_append]
  refine List.mem_append_right _ ?_
  rw [← takenBy, takenBy_cons, takes_vanished _ hgone, hnr]
  exact List.mem_append_left _ (List.mem_singleton_self _)

theorem NoTheft.matching {old new : List FileRow} (holds : (old.map FileRow.path).Nodup)
    (hnews : (new.map FileRow.path).Nodup) (h : NoTheft old new) :
    Matching old new (ownTurn old new) := by
  refine ⟨?_, ?_, ?_⟩
  · intro o hmem hgone nr hnr
    obtain ⟨before, after, hold⟩ := List.append_of_mem hmem
    rw [ownTurn_eq holds hold] at hnr
    rw [hold]
    refine destination_fresh hgone hnr (h before o after hold hgone nr ?_)
    rw [matchedNew_eq]
    exact hnr
  · -- the later of the two would have found it taken
    have hlater : ∀ before o after, old = before ++ o :: after → ∀ o' ∈ before,
        atPath new o'.path = none → ∀ nr, ownTurn old new o = some nr →
        ownTurn old new o' ≠ some nr := by
      intro before o after hold o' ho' hgone' nr hnr hnr'
      rw [ownTurn_eq holds hold] at hnr
      exact (destination_free hnr).2 (ownTurn_taken holds hold ho' hgone' hnr')
    intro o hmem o' hmem' hgone hgone' nr hnr hnr'
    obtain ⟨before, after, hold⟩ := List.append_of_mem hmem
    rw [hold, List.mem_append, List.mem_cons] at hmem'
    obtain hbefore | rfl | hafter := hmem'
    · exact absurd hnr' (hlater before o after hold o' hbefore hgone' nr hnr)
    · rfl
    · obtain ⟨done, rest, rfl⟩ := List.append_of_mem hafter
      refine absurd hnr (hlater (before ++ o :: done) o' rest ?_ o (by simp) hgone nr hnr')
      rw [hold, List.append_assoc, List.cons_append]
  · intro before o after hold hgone
    have hfind := @ownTurn_eq _ new _ _ _ holds hold
    rw [destination_eq _ hgone] at hfind
    refine firstLeft_of_find? hfind.symm fun nr hnr htaken => ?_
    refine (taken_iff hnews before ?_ nr (offers_sub hnr)).1 htaken
    intro done o' rest hsplit _
    rw [ownTurn_eq holds]
    rw [hold, hsplit, List.append_assoc, List.cons_append]

/-- **A diff is a partition exactly when the vanished rows have such a matching**: rows at fresh
pathnames, each the first of its row's offers that no earlier row has. They have one where no offer
is at the pathname of an old row behind its own. -/
theorem partition_iff (oldScanId newScanId : Int) (root : Path) (old new : Manifest) :
    (Partition (old.under root).rows (new.under root).rows
        (diff oldScanId newScanId root old.rows new.rows) ↔
      ∃ moves, Matching (old.under root).rows (new.under root).rows moves) ∧
    (Apart (old.under root).rows (new.under root).rows →
      Partition (old.under root).rows (new.under root).rows
        (diff oldScanId newScanId root old.rows new.rows)) := by
  have holds := (old.under root).distinct
  have hnews := (new.under root).distinct
  rw [partition_iff_noTheft]
  refine ⟨⟨fun h => ⟨_, h.matching holds hnews⟩, ?_⟩, Apart.noTheft⟩
  rintro ⟨moves, h⟩
  exact h.noTheft holds hnews

end MoveTrack

end DedupCommando
