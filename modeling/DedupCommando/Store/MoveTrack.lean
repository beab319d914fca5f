import DedupCommando.Path

/-!
# The diff of two scans

* `FileRow`, `FileChange`, `DiffReport` — the rows of a manifest and what is reported of them.
* `judge`, `diffOld`, `diffNew`, `diff` — one pass over the old rows, each taking the first new row
  that is still free, and one over the new rows that are left.
* `verdicts`, `Outcome` — the report as a list of verdicts, one for each old row.
* `Manifest`, `Partition`, `NoTheft` — every pathname is accounted for once; no row takes what a
  later one keeps.
* `partition_iff_noTheft` — **the report is a partition exactly when no vanished row takes the new
  row of an old pathname that is still to come.**
-/

set_option autoImplicit false

namespace DedupCommando

namespace MoveTrack

/-- A file row of a manifest. -/
structure FileRow where
  path : Path
  size : Nat
  mtime : Int
  device : Nat
  inode : Nat
  hash : Option Bytes
  deriving DecidableEq

inductive FileChange where
  | modified (oldPath newPath : Path)
  | movedByInode (src dest : Path)
  | movedByHash (src dest : Path)
  | deleted (path : Path)
  | new (path : Path)
  | newDupCandidate (path : Path) (peersInOld : List Path)
  deriving DecidableEq

/-- The pathname of the old scan, of a change that has one. -/
def FileChange.oldPath : FileChange → Option Path
  | .modified src _ => some src
  | .movedByInode src _ => some src
  | .movedByHash src _ => some src
  | .deleted path => some path
  | .new _ => none
  | .newDupCandidate _ _ => none

/-- The pathname of the new scan, of a change that has one. -/
def FileChange.newPath : FileChange → Option Path
  | .modified _ dest => some dest
  | .movedByInode _ dest => some dest
  | .movedByHash _ dest => some dest
  | .deleted _ => none
  | .new path => some path
  | .newDupCandidate path _ => some path

structure DiffReport where
  oldScanId : Int
  newScanId : Int
  root : Path
  unchangedCount : Nat
  modified : List FileChange
  movedInode : List FileChange
  movedHash : List FileChange
  deleted : List FileChange
  new : List FileChange
  newDupCandidates : List FileChange
  deriving DecidableEq

/-! ## The pass over the old rows -/

/-- `new_by_path`: the last row of a pathname is the one that stays in the map. -/
def atPath (new : List FileRow) (path : Path) : Option FileRow :=
  new.reverse.find? fun nr => decide (nr.path = path)

/-- `new_by_inode` -/
def byInode (new : List FileRow) (o : FileRow) : List FileRow :=
  new.filter fun nr => decide (nr.device = o.device ∧ nr.inode = o.inode)

/-- `new_by_hash` -/
def byHash (new : List FileRow) (hash : Bytes) : List FileRow :=
  new.filter fun nr => decide (nr.hash = some hash)

/-- The first row of the same inode and size that nobody has taken. -/
def freeByInode (new : List FileRow) (taken : List Path) (o : FileRow) : Option FileRow :=
  (byInode new o).find? fun nr => decide (nr.size = o.size ∧ nr.path ∉ taken)

/-- The first row of the same digest that nobody has taken. -/
def freeByHash (new : List FileRow) (taken : List Path) (o : FileRow) : Option FileRow :=
  match o.hash with
  | none => none
  | some hash => (byHash new hash).find? fun nr => decide (nr.path ≠ o.path ∧ nr.path ∉ taken)

/-- What one old row comes to. -/
inductive Verdict where
  | unchanged (nr : FileRow)
  | modified (nr : FileRow)
  | movedByInode (nr : FileRow)
  | movedByHash (nr : FileRow)
  | deleted

def judge (new : List FileRow) (taken : List Path) (o : FileRow) : Verdict :=
  match atPath new o.path with
  | some nr => if nr.size = o.size ∧ nr.mtime = o.mtime then .unchanged nr else .modified nr
  | none =>
    match freeByInode new taken o with
    | some nr => .movedByInode nr
    | none =>
      match freeByHash new taken o with
      | some nr => .movedByHash nr
      | none => .deleted

/-- What a verdict enters in `matched_new`. -/
def Verdict.takes : Verdict → List Path
  | .unchanged nr | .modified nr | .movedByInode nr | .movedByHash nr => [nr.path]
  | .deleted => []

def record (r : DiffReport) (o : FileRow) : Verdict → DiffReport
  | .unchanged _ => { r with unchangedCount := r.unchangedCount + 1 }
  | .modified nr => { r with modified := r.modified ++ [.modified o.path nr.path] }
  | .movedByInode nr => { r with movedInode := r.movedInode ++ [.movedByInode o.path nr.path] }
  | .movedByHash nr => { r with movedHash := r.movedHash ++ [.movedByHash o.path nr.path] }
  | .deleted => { r with deleted := r.deleted ++ [.deleted o.path] }

/-- The loop over the old rows, with `matched_new`. -/
def diffOld (new : List FileRow) :
    DiffReport → List Path → List FileRow → DiffReport × List Path
  | r, taken, [] => (r, taken)
  | r, taken, o :: old =>
    let v := judge new taken o
    diffOld new (record r o v) (taken ++ v.takes) old

/-! ## The pass over the new rows -/

/-- `old_by_hash`: where the old scan had this content. -/
def peers (old : List FileRow) (hash : Bytes) : List Path :=
  (old.filter fun o => decide (o.hash = some hash)).map FileRow.path

/-- What a new row comes to that no old row has taken. -/
def arrival (old : List FileRow) (nr : FileRow) : FileChange :=
  match nr.hash with
  | none => .new nr.path
  | some hash => if peers old hash = [] then .new nr.path
      else .newDupCandidate nr.path (peers old hash)

def diffNew (old : List FileRow) (taken : List Path) : DiffReport → List FileRow → DiffReport
  | r, [] => r
  | r, nr :: new =>
    if nr.path ∈ taken then diffNew old taken r new
    else match arrival old nr with
      | .newDupCandidate path ps =>
        diffNew old taken
          { r with newDupCandidates := r.newDupCandidates ++ [.newDupCandidate path ps] } new
      | change => diffNew old taken { r with new := r.new ++ [change] } new

/-- The rows under a root. -/
def under (root : Path) (rows : List FileRow) : List FileRow :=
  rows.filter fun row => row.path.startsWith root

/-- `diff` of the rows of two scans, in the order the store returns them. -/
def diff (oldScanId newScanId : Int) (root : Path) (old new : List FileRow) : DiffReport :=
  let old := under root old
  let new := under root new
  let (r, taken) := diffOld new ⟨oldScanId, newScanId, root, 0, [], [], [], [], [], []⟩ [] old
  diffNew old taken r new

/-! ## Verdicts -/

/-- The verdicts of the loop, in the order of the old rows. -/
def verdicts (new : List FileRow) : List Path → List FileRow → List (FileRow × Verdict)
  | _, [] => []
  | taken, o :: old =>
    let v := judge new taken o
    (o, v) :: verdicts new (taken ++ v.takes) old

/-- What the rows of a list of verdicts have taken. -/
def takenBy (vs : List (FileRow × Verdict)) : List Path := vs.flatMap fun e => e.2.takes

/-- The report of a list of verdicts. -/
def recordAll (r : DiffReport) (vs : List (FileRow × Verdict)) : DiffReport :=
  vs.foldl (fun r e => record r e.1 e.2) r

theorem diffOld_eq (new : List FileRow) : ∀ (r : DiffReport) (taken : List Path)
    (old : List FileRow), diffOld new r taken old =
      (recordAll r (verdicts new taken old), taken ++ takenBy (verdicts new taken old))
  | r, taken, [] => by simp [diffOld, verdicts, recordAll, takenBy]
  | r, taken, o :: old => by
    rw [diffOld, diffOld_eq new]
    simp [verdicts, recordAll, takenBy]

theorem map_fst_verdicts (new : List FileRow) : ∀ (taken : List Path) (old : List FileRow),
    (verdicts new taken old).map Prod.fst = old
  | _, [] => rfl
  | taken, o :: old => by
    rw [verdicts, List.map_cons, map_fst_verdicts]

theorem verdicts_append (new : List FileRow) : ∀ (taken : List Path) (before after : List FileRow),
    verdicts new taken (before ++ after) = verdicts new taken before ++
      verdicts new (taken ++ takenBy (verdicts new taken before)) after
  | taken, [], after => by simp [verdicts, takenBy]
  | taken, o :: before, after => by
    simp only [List.cons_append, verdicts, verdicts_append, takenBy, List.flatMap_cons,
      List.append_assoc]

/-! ## What a verdict is reported as -/

/-- The pathname of a row that was found unchanged. -/
def unchangedOf (e : FileRow × Verdict) : Option Path :=
  match e.2 with
  | .unchanged _ => some e.1.path
  | _ => none

def modifiedOf (e : FileRow × Verdict) : Option FileChange :=
  match e.2 with
  | .modified nr => some (.modified e.1.path nr.path)
  | _ => none

def movedInodeOf (e : FileRow × Verdict) : Option FileChange :=
  match e.2 with
  | .movedByInode nr => some (.movedByInode e.1.path nr.path)
  | _ => none

def movedHashOf (e : FileRow × Verdict) : Option FileChange :=
  match e.2 with
  | .movedByHash nr => some (.movedByHash e.1.path nr.path)
  | _ => none

def deletedOf (e : FileRow × Verdict) : Option FileChange :=
  match e.2 with
  | .deleted => some (.deleted e.1.path)
  | _ => none

/-- A report as the verdicts it was made of. -/
structure Reports (r₀ r : DiffReport) (vs : List (FileRow × Verdict)) : Prop where
  unchanged : r.unchangedCount = r₀.unchangedCount + (vs.filterMap unchangedOf).length
  modified : r.modified = r₀.modified ++ vs.filterMap modifiedOf
  movedInode : r.movedInode = r₀.movedInode ++ vs.filterMap movedInodeOf
  movedHash : r.movedHash = r₀.movedHash ++ vs.filterMap movedHashOf
  deleted : r.deleted = r₀.deleted ++ vs.filterMap deletedOf
  new : r.new = r₀.new
  newDup : r.newDupCandidates = r₀.newDupCandidates

theorem reports_recordAll : ∀ (r : DiffReport) (vs : List (FileRow × Verdict)),
    Reports r (recordAll r vs) vs
  | r, [] => by constructor <;> simp [recordAll]
  | r, (o, v) :: vs => by
    obtain ⟨h1, h2, h3, h4, h5, h6, h7⟩ := reports_recordAll (record r o v) vs
    have hfold : recordAll r ((o, v) :: vs) = recordAll (record r o v) vs := rfl
    rw [hfold]
    cases v
    all_goals
      refine ⟨?_, ?_, ?_, ?_, ?_, ?_, ?_⟩
      · rw [h1]
        simp [record, List.filterMap_cons, unchangedOf]
        try omega
      · rw [h2]
        simp [record, List.filterMap_cons, modifiedOf]
      · rw [h3]
        simp [record, List.filterMap_cons, movedInodeOf]
      · rw [h4]
        simp [record, List.filterMap_cons, movedHashOf]
      · rw [h5]
        simp [record, List.filterMap_cons, deletedOf]
      · rw [h6]
        rfl
      · rw [h7]
        rfl

/-- The new rows that nobody took. -/
def leftOver (new : List FileRow) (taken : List Path) : List FileRow :=
  new.filter fun nr => decide (nr.path ∉ taken)

def isDup : FileChange → Bool
  | .newDupCandidate _ _ => true
  | _ => false

/-- What the pass over the new rows adds to a report. -/
theorem diffNew_eq (old : List FileRow) (taken : List Path) : ∀ (r : DiffReport)
    (new : List FileRow), diffNew old taken r new =
      { r with
        new := r.new ++ ((leftOver new taken).map (arrival old)).filter fun c => !isDup c
        newDupCandidates := r.newDupCandidates ++
          ((leftOver new taken).map (arrival old)).filter isDup }
  | r, [] => by simp [diffNew, leftOver]
  | r, nr :: new => by
    unfold diffNew
    split
    · rename_i htaken
      rw [diffNew_eq old taken r new]
      simp [leftOver, htaken]
    · rename_i hfree
      have hleft : leftOver (nr :: new) taken = nr :: leftOver new taken := by
        simp [leftOver, hfree]
      rw [hleft]
      split
      · rename_i path ps harr
        rw [diffNew_eq old taken _ new]
        simp [harr, List.filter_cons, isDup]
      · rename_i hne
        rw [diffNew_eq old taken _ new]
        have hdup : isDup (arrival old nr) = false := by
          cases harr : arrival old nr
          case newDupCandidate path ps => exact absurd harr (hne path ps)
          all_goals rfl
        simp [hdup]

/-- Every row is reported under one category. -/
theorem categories_old : ∀ (vs : List (FileRow × Verdict)),
    (vs.filterMap unchangedOf ++ (vs.filterMap modifiedOf ++ vs.filterMap movedInodeOf ++
      vs.filterMap movedHashOf ++ vs.filterMap deletedOf).filterMap FileChange.oldPath).Perm
      (vs.map fun e => e.1.path)
  | [] => .nil
  | (o, v) :: vs => by
    have ih := categories_old vs
    rw [List.perm_iff_count] at ih ⊢
    intro p
    have hp := ih p
    simp only [List.count_append, List.filterMap_append, List.map_cons,
      List.count_cons] at hp ⊢
    cases v
    all_goals
      simp only [List.filterMap_cons, unchangedOf, modifiedOf, movedInodeOf, movedHashOf, deletedOf,
        FileChange.oldPath, List.count_cons]
      omega

@[simp] theorem takenBy_cons (o : FileRow) (v : Verdict) (vs : List (FileRow × Verdict)) :
    takenBy ((o, v) :: vs) = v.takes ++ takenBy vs := by
  simp [takenBy]

/-- And takes what its category says. -/
theorem categories_new : ∀ (vs : List (FileRow × Verdict)),
    (∀ e ∈ vs, ∀ nr, e.2 = .unchanged nr → nr.path = e.1.path) →
    (vs.filterMap unchangedOf ++ (vs.filterMap modifiedOf ++ vs.filterMap movedInodeOf ++
      vs.filterMap movedHashOf).filterMap FileChange.newPath).Perm (takenBy vs)
  | [], _ => .nil
  | (o, v) :: vs, h => by
    have ih := categories_new vs fun e he => h e (List.mem_cons_of_mem _ he)
    have hself := h (o, v) List.mem_cons_self
    rw [List.perm_iff_count] at ih ⊢
    intro p
    have hp := ih p
    simp only [List.count_append, List.filterMap_append, takenBy_cons] at hp ⊢
    cases v with
    | unchanged nr =>
      have hpath : nr.path = o.path := hself nr rfl
      simp only [List.filterMap_cons, unchangedOf, modifiedOf, movedInodeOf, movedHashOf,
        Verdict.takes, List.count_cons, List.count_nil, hpath]
      omega
    | deleted =>
      simp only [List.filterMap_cons, unchangedOf, modifiedOf, movedInodeOf, movedHashOf,
        Verdict.takes, List.count_nil]
      omega
    | modified nr | movedByInode nr | movedByHash nr =>
      simp only [List.filterMap_cons, unchangedOf, modifiedOf, movedInodeOf, movedHashOf,
        FileChange.newPath, Verdict.takes, List.count_cons, List.count_nil]
      omega

/-! ## Every pathname once -/

/-- The rows a manifest holds: the table has one row for each pathname of a scan. -/
structure Manifest where
  rows : List FileRow
  distinct : (rows.map FileRow.path).Nodup

def Manifest.under (m : Manifest) (root : Path) : Manifest where
  rows := MoveTrack.under root m.rows
  distinct := m.distinct.sublist (List.filter_sublist.map _)

/-- Both scans hold the pathname, with one size and one time. -/
def stays (new : List FileRow) (o : FileRow) : Bool :=
  new.any fun nr => decide (nr.path = o.path ∧ nr.size = o.size ∧ nr.mtime = o.mtime)

def unchangedPaths (old new : List FileRow) : List Path :=
  (old.filter (stays new)).map FileRow.path

/-- The changes that name a pathname of the old scan. -/
def DiffReport.ofOld (r : DiffReport) : List FileChange :=
  r.modified ++ r.movedInode ++ r.movedHash ++ r.deleted

/-- The changes that name a pathname of the new scan. -/
def DiffReport.ofNew (r : DiffReport) : List FileChange :=
  r.modified ++ r.movedInode ++ r.movedHash ++ r.new ++ r.newDupCandidates

/-- The report accounts for every pathname once, and no file moves onto a pathname of the old
scan. -/
structure Partition (old new : List FileRow) (r : DiffReport) : Prop where
  unchanged : r.unchangedCount = (unchangedPaths old new).length
  olds : (unchangedPaths old new ++ r.ofOld.filterMap FileChange.oldPath).Perm
    (old.map FileRow.path)
  news : (unchangedPaths old new ++ r.ofNew.filterMap FileChange.newPath).Perm
    (new.map FileRow.path)
  targets : ∀ path ∈ (r.movedInode ++ r.movedHash).filterMap FileChange.newPath,
    path ∉ old.map FileRow.path

/-- `matched_new` when the loop has been through `before`. -/
def matchedNew (new before : List FileRow) : List Path :=
  (diffOld new ⟨0, 0, [], 0, [], [], [], [], [], []⟩ [] before).2

/-- The new row that a vanished row would move to. -/
def destination (new : List FileRow) (taken : List Path) (o : FileRow) : Option FileRow :=
  (freeByInode new taken o).or (freeByHash new taken o)

/-- No vanished row, at its turn, finds first the new row of an old pathname still to come. -/
def NoTheft (old new : List FileRow) : Prop :=
  ∀ before o after, old = before ++ o :: after → atPath new o.path = none →
    ∀ nr ∈ destination new (matchedNew new before) o, nr.path ∉ after.map FileRow.path

theorem matchedNew_eq (new before : List FileRow) :
    matchedNew new before = takenBy (verdicts new [] before) := by
  simp [matchedNew, diffOld_eq]

theorem atPath_some {new : List FileRow} {path : Path} {nr : FileRow}
    (h : atPath new path = some nr) : nr ∈ new ∧ nr.path = path := by
  refine ⟨by simpa using List.mem_of_find?_eq_some h, ?_⟩
  simpa using List.find?_some h

theorem atPath_none {new : List FileRow} {path : Path} :
    atPath new path = none ↔ path ∉ new.map FileRow.path := by
  simp [atPath, List.find?_eq_none]

theorem stays_iff {new : List FileRow} (hdist : (new.map FileRow.path).Nodup) {o nr : FileRow}
    (hat : atPath new o.path = some nr) :
    stays new o = true ↔ nr.size = o.size ∧ nr.mtime = o.mtime := by
  obtain ⟨hmem, hpath⟩ := atPath_some hat
  constructor
  · intro h
    obtain ⟨other, hother, hrow⟩ := List.any_eq_true.mp h
    obtain ⟨hop, hsize, htime⟩ := of_decide_eq_true hrow
    have hsame : other = nr :=
      List.inj_on_of_nodup_map hdist hother hmem (hop.trans hpath.symm)
    rw [← hsame]
    exact ⟨hsize, htime⟩
  · rintro ⟨hsize, htime⟩
    exact List.any_eq_true.mpr ⟨nr, hmem, decide_eq_true ⟨hpath, hsize, htime⟩⟩

theorem not_stays {new : List FileRow} {o : FileRow} (hat : atPath new o.path = none) :
    stays new o = false := by
  rw [Bool.eq_false_iff]
  intro h
  obtain ⟨other, hother, hrow⟩ := List.any_eq_true.mp h
  have hgone := atPath_none.mp hat
  rw [← (of_decide_eq_true hrow).1] at hgone
  exact hgone (List.mem_map_of_mem hother)

/-- What one turn can come to. -/
theorem judge_cases (new : List FileRow) (taken : List Path) (o : FileRow) :
    (∃ nr, atPath new o.path = some nr ∧ nr.size = o.size ∧ nr.mtime = o.mtime ∧
      judge new taken o = .unchanged nr) ∨
    (∃ nr, atPath new o.path = some nr ∧ ¬(nr.size = o.size ∧ nr.mtime = o.mtime) ∧
      judge new taken o = .modified nr) ∨
    (∃ nr, atPath new o.path = none ∧ freeByInode new taken o = some nr ∧
      judge new taken o = .movedByInode nr) ∨
    (∃ nr, atPath new o.path = none ∧ freeByInode new taken o = none ∧
      freeByHash new taken o = some nr ∧ judge new taken o = .movedByHash nr) ∨
    (atPath new o.path = none ∧ freeByInode new taken o = none ∧
      freeByHash new taken o = none ∧ judge new taken o = .deleted) := by
  unfold judge
  cases hat : atPath new o.path with
  | some nr =>
    by_cases hsame : nr.size = o.size ∧ nr.mtime = o.mtime
    · exact .inl ⟨nr, rfl, hsame.1, hsame.2, if_pos hsame⟩
    · exact .inr (.inl ⟨nr, rfl, hsame, if_neg hsame⟩)
  | none =>
    cases hinode : freeByInode new taken o with
    | some nr => exact .inr (.inr (.inl ⟨nr, rfl, rfl, rfl⟩))
    | none =>
      cases hhash : freeByHash new taken o with
      | some nr => exact .inr (.inr (.inr (.inl ⟨nr, rfl, rfl, rfl, rfl⟩)))
      | none => exact .inr (.inr (.inr (.inr ⟨rfl, rfl, rfl, rfl⟩)))

theorem freeByInode_some {new : List FileRow} {taken : List Path} {o nr : FileRow}
    (h : freeByInode new taken o = some nr) :
    nr ∈ byInode new o ∧ nr.size = o.size ∧ nr.path ∉ taken := by
  have hfound := List.find?_some h
  exact ⟨List.mem_of_find?_eq_some h, of_decide_eq_true hfound⟩

theorem freeByHash_some {new : List FileRow} {taken : List Path} {o nr : FileRow}
    (h : freeByHash new taken o = some nr) :
    ∃ hash, o.hash = some hash ∧ nr ∈ byHash new hash ∧ nr.path ∉ taken := by
  unfold freeByHash at h
  cases hhash : o.hash with
  | none => simp [hhash] at h
  | some hash =>
    rw [hhash] at h
    have hfound := List.find?_some h
    exact ⟨hash, rfl, List.mem_of_find?_eq_some h, (of_decide_eq_true hfound).2⟩

/-- A destination is a new row that is free. -/
theorem destination_free {new : List FileRow} {taken : List Path} {o nr : FileRow}
    (h : destination new taken o = some nr) : nr ∈ new ∧ nr.path ∉ taken := by
  unfold destination at h
  cases hinode : freeByInode new taken o with
  | some other =>
    rw [hinode] at h
    obtain rfl : other = nr := by simpa using h
    obtain ⟨hmem, -, hfree⟩ := freeByInode_some hinode
    exact ⟨(List.mem_filter.mp hmem).1, hfree⟩
  | none =>
    rw [hinode] at h
    obtain ⟨hash, -, hmem, hfree⟩ := freeByHash_some (by simpa using h)
    exact ⟨(List.mem_filter.mp hmem).1, hfree⟩

/-! ## The turns of a run -/

theorem mem_verdicts {new : List FileRow} : ∀ {taken : List Path} {old : List FileRow}
    {o : FileRow} {v : Verdict}, (o, v) ∈ verdicts new taken old ↔
      ∃ before after, old = before ++ o :: after ∧
        v = judge new (taken ++ takenBy (verdicts new taken before)) o
  | taken, [], o, v => by simp [verdicts]
  | taken, o₁ :: old, o, v => by
    rw [verdicts, List.mem_cons, mem_verdicts]
    constructor
    · rintro (heq | ⟨before, after, hold, hv⟩)
      · obtain ⟨rfl, rfl⟩ := Prod.mk.inj heq
        exact ⟨[], old, rfl, by simp [verdicts, takenBy]⟩
      · refine ⟨o₁ :: before, after, by rw [hold]; rfl, ?_⟩
        rw [hv, verdicts, takenBy_cons, List.append_assoc]
    · rintro ⟨before, after, hold, hv⟩
      cases before with
      | nil =>
        obtain ⟨rfl, -⟩ := List.cons.inj hold
        exact .inl (by rw [hv]; simp [verdicts, takenBy])
      | cons first before =>
        obtain ⟨rfl, hrest⟩ := List.cons.inj hold
        refine .inr ⟨before, after, hrest, ?_⟩
        rw [hv, verdicts, takenBy_cons, List.append_assoc]

theorem takes_kept {new : List FileRow} {o nr : FileRow} (taken : List Path)
    (hat : atPath new o.path = some nr) : (judge new taken o).takes = [o.path] := by
  have hpath := (atPath_some hat).2
  unfold judge
  rw [hat]
  dsimp only
  split <;> simp [Verdict.takes, hpath]

theorem takes_vanished {new : List FileRow} {o : FileRow} (taken : List Path)
    (hat : atPath new o.path = none) :
    (judge new taken o).takes = ((destination new taken o).map FileRow.path).toList := by
  unfold judge destination
  rw [hat]
  dsimp only
  cases freeByInode new taken o with
  | some nr => rfl
  | none =>
    cases freeByHash new taken o with
    | some nr => rfl
    | none => rfl

theorem takenBy_snoc (new : List FileRow) (before : List FileRow) (o : FileRow) :
    takenBy (verdicts new [] (before ++ [o])) = takenBy (verdicts new [] before) ++
      (judge new (takenBy (verdicts new [] before)) o).takes := by
  rw [verdicts_append]
  simp [takenBy, verdicts]

/-- What is taken is a pathname of the new scan. -/
theorem taken_new (new : List FileRow) (before : List FileRow) :
    ∀ path ∈ takenBy (verdicts new [] before), path ∈ new.map FileRow.path := by
  induction before using List.reverseRecOn with
  | nil => simp [verdicts, takenBy]
  | append_singleton before o ih =>
    intro path hpath
    rw [takenBy_snoc, List.mem_append] at hpath
    obtain hpath | hpath := hpath
    · exact ih path hpath
    · cases hat : atPath new o.path with
      | some nr =>
        rw [takes_kept _ hat, List.mem_singleton] at hpath
        rw [hpath, ← (atPath_some hat).2]
        exact List.mem_map_of_mem (atPath_some hat).1
      | none =>
        rw [takes_vanished _ hat] at hpath
        obtain ⟨nr, hnr, rfl⟩ : ∃ nr, destination new _ o = some nr ∧ nr.path = path := by
          simpa using hpath
        exact List.mem_map_of_mem (destination_free hnr).1

/-- A row whose pathname is still there has taken it. -/
theorem kept_taken (new : List FileRow) (before : List FileRow) :
    ∀ path ∈ before.map FileRow.path, path ∈ new.map FileRow.path →
      path ∈ takenBy (verdicts new [] before) := by
  induction before using List.reverseRecOn with
  | nil => simp
  | append_singleton before o ih =>
    intro path hpath hnew
    rw [takenBy_snoc, List.mem_append]
    rw [List.map_append, List.mem_append] at hpath
    obtain hpath | hpath := hpath
    · exact .inl (ih path hpath hnew)
    · obtain rfl : path = o.path := by simpa using hpath
      cases hat : atPath new o.path with
      | some nr => exact .inr (by rw [takes_kept _ hat]; exact List.mem_singleton_self _)
      | none => exact absurd hnew (atPath_none.mp hat)

/-- A destination that is not still to come is at no pathname of the old scan. -/
theorem destination_fresh {new before after : List FileRow} {o nr : FileRow}
    (hgone : atPath new o.path = none)
    (hnr : destination new (takenBy (verdicts new [] before)) o = some nr)
    (hafter : nr.path ∉ after.map FileRow.path) :
    nr.path ∉ (before ++ o :: after).map FileRow.path := by
  obtain ⟨hmem, hfree⟩ := destination_free hnr
  have hnew : nr.path ∈ new.map FileRow.path := List.mem_map_of_mem hmem
  rw [List.map_append, List.map_cons, List.mem_append, List.mem_cons]
  rintro (hbefore | hself | hlater)
  · exact hfree (kept_taken new before _ hbefore hnew)
  · exact atPath_none.mp hgone (hself ▸ hnew)
  · exact hafter hlater

/-- Without a theft each turn takes a pathname that nobody has taken. -/
theorem taken_nodup {old new : List FileRow} (hdist : (old.map FileRow.path).Nodup)
    (hno : NoTheft old new) (before : List FileRow) : ∀ after, old = before ++ after →
      (takenBy (verdicts new [] before)).Nodup ∧
      ∀ path ∈ takenBy (verdicts new [] before),
        path ∈ before.map FileRow.path ∨ path ∉ old.map FileRow.path := by
  induction before using List.reverseRecOn with
  | nil => simp [verdicts, takenBy]
  | append_singleton before o ih =>
    intro after hold
    have hsplit : old = before ++ o :: after := by simpa using hold
    obtain ⟨hnodup, hwhere⟩ := ih (o :: after) hsplit
    rw [takenBy_snoc]
    cases hat : atPath new o.path with
    | some nr =>
      rw [takes_kept _ hat]
      have hfirst : o.path ∉ before.map FileRow.path := by
        rw [hsplit, List.map_append, List.map_cons, List.nodup_middle, List.nodup_cons] at hdist
        exact fun h => hdist.1 (List.mem_append_left _ h)
      have hfree : o.path ∉ takenBy (verdicts new [] before) := by
        intro htaken
        obtain hb | hn := hwhere _ htaken
        · exact hfirst hb
        · exact hn (by rw [hsplit]; simp)
      refine ⟨?_, ?_⟩
      · rw [List.nodup_append]
        refine ⟨hnodup, List.nodup_singleton _, ?_⟩
        rintro path hpath _ hlast rfl
        exact hfree (List.mem_singleton.mp hlast ▸ hpath)
      · intro path hpath
        rw [List.mem_append, List.mem_singleton] at hpath
        obtain hpath | rfl := hpath
        · exact (hwhere path hpath).imp (by simp +contextual) id
        · exact .inl (by simp)
    | none =>
      rw [takes_vanished _ hat]
      cases hdest : destination new (takenBy (verdicts new [] before)) o with
      | none =>
        simp only [Option.map_none, Option.toList_none, List.append_nil]
        exact ⟨hnodup, fun path hpath => (hwhere path hpath).imp (by simp +contextual) id⟩
      | some nr =>
        have hafter : nr.path ∉ after.map FileRow.path := by
          apply hno before o after hsplit hat
          rw [matchedNew_eq, hdest]
          rfl
        have hfresh := destination_fresh hat hdest hafter
        rw [← hsplit] at hfresh
        have hfree := (destination_free hdest).2
        simp only [Option.map_some, Option.toList_some]
        refine ⟨?_, ?_⟩
        · rw [List.nodup_append]
          refine ⟨hnodup, List.nodup_singleton _, ?_⟩
          rintro path hpath _ hlast rfl
          exact hfree (List.mem_singleton.mp hlast ▸ hpath)
        · intro path hpath
          rw [List.mem_append, List.mem_singleton] at hpath
          obtain hpath | rfl := hpath
          · exact (hwhere path hpath).imp (by simp +contextual) id
          · exact .inr hfresh

/-! ## The report is a partition -/

theorem unchangedOf_verdicts {new : List FileRow} (hdist : (new.map FileRow.path).Nodup) :
    ∀ (taken : List Path) (old : List FileRow),
      (verdicts new taken old).filterMap unchangedOf = unchangedPaths old new
  | _, [] => rfl
  | taken, o :: old => by
    have ih := unchangedOf_verdicts hdist (taken ++ (judge new taken o).takes) old
    simp only [unchangedPaths] at ih ⊢
    rw [verdicts, List.filterMap_cons, ih]
    obtain ⟨nr, hat, hsize, htime, hv⟩ | ⟨nr, hat, hdiff, hv⟩ | ⟨nr, hat, -, hv⟩ |
      ⟨nr, hat, -, -, hv⟩ | ⟨hat, -, -, hv⟩ := judge_cases new taken o
    · have hs : stays new o = true := (stays_iff hdist hat).mpr ⟨hsize, htime⟩
      simp [hv, unchangedOf, hs]
    · have hs : ¬ stays new o = true := fun h => hdiff ((stays_iff hdist hat).mp h)
      simp [hv, unchangedOf, hs]
    all_goals simp [hv, unchangedOf, not_stays hat]

theorem arrival_newPath (old : List FileRow) (nr : FileRow) :
    (arrival old nr).newPath = some nr.path := by
  unfold arrival
  split
  · rfl
  · split <;> rfl

theorem arrivals_newPath (old rows : List FileRow) :
    (((rows.map (arrival old)).filter fun c => !isDup c) ++
      (rows.map (arrival old)).filter isDup).filterMap FileChange.newPath |>.Perm
      (rows.map FileRow.path) := by
  have hperm : (((rows.map (arrival old)).filter fun c => !isDup c) ++
      (rows.map (arrival old)).filter isDup).Perm (rows.map (arrival old)) :=
    List.perm_append_comm.trans (List.filter_append_perm isDup _)
  have hall : (rows.map (arrival old)).filterMap FileChange.newPath = rows.map FileRow.path := by
    rw [List.filterMap_map, ← List.filterMap_eq_map]
    congr 1
    funext nr
    exact arrival_newPath old nr
  rw [← hall]
  exact hperm.filterMap _

/-- The report of a diff as its verdicts and the rows that are left. -/
structure Outcome (old new : List FileRow) (r : DiffReport) : Prop where
  unchanged : r.unchangedCount = ((verdicts new [] old).filterMap unchangedOf).length
  modified : r.modified = (verdicts new [] old).filterMap modifiedOf
  movedInode : r.movedInode = (verdicts new [] old).filterMap movedInodeOf
  movedHash : r.movedHash = (verdicts new [] old).filterMap movedHashOf
  deleted : r.deleted = (verdicts new [] old).filterMap deletedOf
  arrived : r.new = ((leftOver new (takenBy (verdicts new [] old))).map (arrival old)).filter
    fun c => !isDup c
  copies : r.newDupCandidates =
    ((leftOver new (takenBy (verdicts new [] old))).map (arrival old)).filter isDup

theorem diff_outcome (oldScanId newScanId : Int) (root : Path) (old new : List FileRow) :
    Outcome (under root old) (under root new) (diff oldScanId newScanId root old new) := by
  unfold diff
  dsimp only
  rw [diffOld_eq]
  dsimp only
  rw [diffNew_eq, List.nil_append]
  obtain ⟨h1, h2, h3, h4, h5, h6, h7⟩ := reports_recordAll
    ⟨oldScanId, newScanId, root, 0, [], [], [], [], [], []⟩
    (verdicts (under root new) [] (under root old))
  constructor
  · rw [h1, Nat.zero_add]
  · rw [h2, List.nil_append]
  · rw [h3, List.nil_append]
  · rw [h4, List.nil_append]
  · rw [h5, List.nil_append]
  · simp [h6]
  · simp [h7]

/-- The targets of the moves are the destinations of the vanished rows at their turns. -/
theorem mem_targets {new old : List FileRow} {path : Path} :
    path ∈ ((verdicts new [] old).filterMap movedInodeOf ++
        (verdicts new [] old).filterMap movedHashOf).filterMap FileChange.newPath ↔
      ∃ before o after nr, old = before ++ o :: after ∧ atPath new o.path = none ∧
        destination new (takenBy (verdicts new [] before)) o = some nr ∧ nr.path = path := by
  have hmoved : path ∈ ((verdicts new [] old).filterMap movedInodeOf ++
      (verdicts new [] old).filterMap movedHashOf).filterMap FileChange.newPath ↔
      ∃ o v nr, (o, v) ∈ verdicts new [] old ∧
        (v = .movedByInode nr ∨ v = .movedByHash nr) ∧ nr.path = path := by
    simp only [List.mem_filterMap, List.mem_append]
    constructor
    · rintro ⟨change, ⟨⟨o, v⟩, hmem, hchange⟩ | ⟨⟨o, v⟩, hmem, hchange⟩, hpath⟩
      · cases v <;> simp only [movedInodeOf, reduceCtorEq] at hchange
        rename_i nr
        obtain rfl := Option.some.inj hchange
        exact ⟨o, _, nr, hmem, .inl rfl, Option.some.inj hpath⟩
      · cases v <;> simp only [movedHashOf, reduceCtorEq] at hchange
        rename_i nr
        obtain rfl := Option.some.inj hchange
        exact ⟨o, _, nr, hmem, .inr rfl, Option.some.inj hpath⟩
    · rintro ⟨o, v, nr, hmem, rfl | rfl, rfl⟩
      · exact ⟨.movedByInode o.path nr.path, .inl ⟨_, hmem, rfl⟩, rfl⟩
      · exact ⟨.movedByHash o.path nr.path, .inr ⟨_, hmem, rfl⟩, rfl⟩
  rw [hmoved]
  constructor
  · rintro ⟨o, v, nr, hmem, hv, hpath⟩
    obtain ⟨before, after, hold, hjudge⟩ := mem_verdicts.mp hmem
    rw [List.nil_append] at hjudge
    refine ⟨before, o, after, nr, hold, ?_⟩
    obtain ⟨nr', hat, -, -, hj⟩ | ⟨nr', hat, -, hj⟩ | ⟨nr', hat, hdest, hj⟩ |
      ⟨nr', hat, hno, hdest, hj⟩ | ⟨hat, -, -, hj⟩ :=
        judge_cases new (takenBy (verdicts new [] before)) o
    all_goals rw [hj] at hjudge
    · simp [hjudge] at hv
    · simp [hjudge] at hv
    · obtain rfl : nr' = nr := by simpa [hjudge] using hv
      exact ⟨hat, by simp [destination, hdest], hpath⟩
    · obtain rfl : nr' = nr := by simpa [hjudge] using hv
      exact ⟨hat, by simp [destination, hno, hdest], hpath⟩
    · simp [hjudge] at hv
  · rintro ⟨before, o, after, nr, hold, hat, hdest, hpath⟩
    have hmem : (o, judge new (takenBy (verdicts new [] before)) o) ∈ verdicts new [] old :=
      mem_verdicts.mpr ⟨before, after, hold, by rw [List.nil_append]⟩
    refine ⟨o, _, nr, hmem, ?_, hpath⟩
    unfold judge
    rw [hat]
    dsimp only
    unfold destination at hdest
    cases hinode : freeByInode new (takenBy (verdicts new [] before)) o with
    | some other => simp_all
    | none => simp_all

/-- An unchanged row keeps its pathname. -/
theorem unchanged_path {ns os : List FileRow} {e : FileRow × Verdict} {nr : FileRow}
    (he : e ∈ verdicts ns [] os) (h : e.2 = .unchanged nr) : nr.path = e.1.path := by
  obtain ⟨o, v⟩ := e
  cases h
  obtain ⟨before, after, -, hjudge⟩ := mem_verdicts.mp he
  obtain ⟨nr', hat, -, -, hj⟩ | ⟨nr', -, -, hj⟩ | ⟨nr', -, -, hj⟩ | ⟨nr', -, -, -, hj⟩ |
    ⟨-, -, -, hj⟩ := judge_cases ns ([] ++ takenBy (verdicts ns [] before)) o
  all_goals rw [hj] at hjudge
  · obtain rfl := Verdict.unchanged.inj hjudge
    exact (atPath_some hat).2
  all_goals simp at hjudge

/-- What is taken and what is left make up the new scan. -/
theorem taken_append_leftOver {ns os : List FileRow} (hnews : (ns.map FileRow.path).Nodup)
    (hnodup : (takenBy (verdicts ns [] os)).Nodup) :
    (takenBy (verdicts ns [] os) ++
      (leftOver ns (takenBy (verdicts ns [] os))).map FileRow.path).Perm (ns.map FileRow.path) := by
  have hleft : (leftOver ns (takenBy (verdicts ns [] os))).map FileRow.path =
      (ns.map FileRow.path).filter fun p => decide (p ∉ takenBy (verdicts ns [] os)) := by
    rw [leftOver, List.filter_map]
    rfl
  rw [hleft, List.perm_ext_iff_of_nodup _ hnews]
  · intro p
    rw [List.mem_append, List.mem_filter]
    constructor
    · rintro (htaken | ⟨hmem, -⟩)
      · exact taken_new ns os p htaken
      · exact hmem
    · intro hmem
      by_cases htaken : p ∈ takenBy (verdicts ns [] os)
      · exact .inl htaken
      · exact .inr ⟨hmem, decide_eq_true htaken⟩
  · rw [List.nodup_append]
    refine ⟨hnodup, hnews.sublist List.filter_sublist, ?_⟩
    rintro p htaken _ hleft rfl
    exact of_decide_eq_true (List.mem_filter.mp hleft).2 htaken

/-- **A diff is a partition exactly when no vanished row takes the new row of an old pathname
that is still to come.** -/
theorem partition_iff_noTheft (oldScanId newScanId : Int) (root : Path) (old new : Manifest) :
    Partition (old.under root).rows (new.under root).rows
        (diff oldScanId newScanId root old.rows new.rows) ↔
      NoTheft (old.under root).rows (new.under root).rows := by
  have hout := diff_outcome oldScanId newScanId root old.rows new.rows
  have holds := (old.under root).distinct
  have hnews := (new.under root).distinct
  change Outcome (old.under root).rows (new.under root).rows _ at hout
  generalize (old.under root).rows = os at *
  generalize (new.under root).rows = ns at *
  generalize diff oldScanId newScanId root old.rows new.rows = r at *
  constructor
  · rintro ⟨-, -, -, htargets⟩ before o after hsplit hat nr hnr hlater
    rw [matchedNew_eq] at hnr
    have hmem : nr.path ∈ (r.movedInode ++ r.movedHash).filterMap FileChange.newPath := by
      rw [hout.movedInode, hout.movedHash, mem_targets]
      exact ⟨before, o, after, nr, hsplit, hat, hnr, rfl⟩
    apply htargets _ hmem
    rw [hsplit, List.map_append, List.map_cons]
    exact List.mem_append_right _ (List.mem_cons_of_mem _ hlater)
  · intro hno
    have hsame := unchangedOf_verdicts hnews [] os
    refine ⟨?_, ?_, ?_, ?_⟩
    · rw [hout.unchanged, hsame]
    · have hcat := categories_old (verdicts ns [] os)
      rw [hsame] at hcat
      have hrows : (verdicts ns [] os).map (fun e => e.1.path) = os.map FileRow.path := by
        conv_rhs => rw [← map_fst_verdicts ns [] os]
        rw [List.map_map]
        rfl
      rw [hrows] at hcat
      rw [DiffReport.ofOld, hout.modified, hout.movedInode, hout.movedHash, hout.deleted]
      exact hcat
    · have hcat := categories_new (verdicts ns [] os) fun e he nr => unchanged_path he
      rw [hsame] at hcat
      have harr := arrivals_newPath os (leftOver ns (takenBy (verdicts ns [] os)))
      have hwhole := taken_append_leftOver hnews (taken_nodup holds hno os [] (by simp)).1
      rw [DiffReport.ofNew, hout.modified, hout.movedInode, hout.movedHash, hout.arrived,
        hout.copies, List.append_assoc, List.filterMap_append, ← List.append_assoc]
      exact (hcat.append harr).trans hwhole
    · intro path hpath
      rw [hout.movedInode, hout.movedHash, mem_targets] at hpath
      obtain ⟨before, o, after, nr, hsplit, hat, hdest, rfl⟩ := hpath
      have hafter : nr.path ∉ after.map FileRow.path := by
        apply hno before o after hsplit hat
        rw [matchedNew_eq, hdest]
        rfl
      rw [hsplit]
      exact destination_fresh hat hdest hafter

/-! ## Two hard links, the first of which is removed -/

def entry (name : Bytes) (h : isName name = true) (inode : Nat) (hash : Option Bytes) : FileRow :=
  ⟨[.rootDir, .normal ⟨name, h⟩], 5, 100, 1, inode, hash⟩

theorem isName_first : isName [97] = true := rfl

theorem isName_second : isName [98] = true := rfl

def twoLinks : Manifest where
  rows := [entry [97] isName_first 7 none, entry [98] isName_second 7 none]
  distinct := by decide

def oneLink : Manifest where
  rows := [entry [98] isName_second 7 none]
  distinct := by decide

/-- The link that is still there is at once unchanged and the target of a move. -/
theorem not_partition : ¬ ∀ (oldScanId newScanId : Int) (root : Path) (old new : Manifest),
    Partition (old.under root).rows (new.under root).rows
      (diff oldScanId newScanId root old.rows new.rows) := by
  intro h
  have htargets := (h 1 2 [.rootDir] twoLinks oneLink).targets
  exact htargets (entry [98] isName_second 7 none).path (by decide) (by decide)

end MoveTrack

end DedupCommando
