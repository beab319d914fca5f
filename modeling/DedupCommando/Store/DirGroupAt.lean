import DedupCommando.Lib.OrdMap
import DedupCommando.Store.Authority
import DedupCommando.Store.DirTwins

/-!
# What a directory cursor is answered

* `prefixBounds`, `within` — the interval of a directory's descendants, on pathname cells.
* `DirGroupAnswer` — the twins of the directory, what is duplicated inside it, or why nothing is.
* `dirGroupAtFresh` — the answer read from the transaction: the twins first, and the membership of
  what lies inside only where there are none.
* `DirGroupMemo`, `dirGroupAt` — the answers remembered for one state of the database.
* `MemoRight`, `dirGroupAt_memoRight` — a memo that holds fresh answers goes on holding them.
-/

set_option autoImplicit false

namespace DedupCommando

open Sql (Value)

/-! ## What lies inside a directory -/

/-- `prefix_bounds`: every absolute pathname lies inside the file system's root. -/
def prefixBounds (dir : Bytes) : Bytes × Bytes :=
  if dir = [47] then ([47], [48]) else (dir ++ [47], dir ++ [48])

/-- `path >= lo AND path < hi` -/
def within (bounds : Bytes × Bytes) (path : Value) : Bool :=
  decide ((Value.text bounds.1).key ≤ path.key ∧ path.key < (Value.text bounds.2).key)

def dirInnerCap : Nat := 1000

/-- One inner duplicate with the group that vouches for it. -/
structure InnerDupe where
  path : Bytes
  id : GroupId

inductive DirGroupAnswer where
  | group (group : AttributedDirGroup)
  | innerDupes (members : List InnerDupe) (total : Nat) (truncated : Bool)
  | innerCandidates (paths : List Bytes) (total : Nat) (truncated : Bool)
  | noDuplicates
  | notInScan
  | nameNotUtf8

def readTexts : List Value → Except String (List Bytes)
  | [] => .ok []
  | v :: vs =>
    match getText v with
    | .error e => .error e
    | .ok b =>
      match readTexts vs with
      | .error e => .error e
      | .ok bs => .ok (b :: bs)

/-- A member inside the directory with its rank. -/
def readMember (scanId generation : Int) (m : Value × Value) : Except String InnerDupe :=
  match getText m.1 with
  | .error e => .error e
  | .ok path =>
    match getInteger m.2 with
    | .error e => .error e
    | .ok rank => .ok ⟨path, ⟨scanId, rank, generation⟩⟩

def readMembers (scanId generation : Int) : List (Value × Value) → Except String (List InnerDupe)
  | [] => .ok []
  | m :: ms =>
    match readMember scanId generation m with
    | .error e => .error e
    | .ok d =>
      match readMembers scanId generation ms with
      | .error e => .error e
      | .ok ds => .ok (d :: ds)

namespace Snapshot

/-- `dir_absence`: a directory without duplicates is told from one the scan does not cover. -/
def dirAbsence (s : Snapshot) (dir : Bytes) : DirGroupAnswer :=
  if s.tables.file.any fun f => Value.same f.path (.text dir) then .noDuplicates
  else if s.tables.file.any fun f => within (prefixBounds dir) f.path then .noDuplicates
  else .notInScan

/-- The raw candidates inside a directory, in the order of their pathnames. -/
def candidateRows (s : Snapshot) (dir : Bytes) : List FileRow :=
  Sql.orderBy (fun f : FileRow => f.path.key)
    ((groupedRows s.tables.file).filter fun f => within (prefixBounds dir) f.path)

/-- The members inside a directory with the ranks of their groups, in the order of their
pathnames. -/
def innerRows (s : Snapshot) (dir : Bytes) : List (Value × Value) :=
  Sql.orderBy (fun m : Value × Value => m.1.key) <|
    match s.mode with
    | .explicit => (s.tables.member.filter fun m => within (prefixBounds dir) m.path).map
        fun m => (m.path, m.groupRank)
    | _ => (s.tables.file.filter fun f =>
          decide (f.hash ≠ .null) && within (prefixBounds dir) f.path).flatMap fun f =>
        (s.tables.fileGroup.filter fun g => Value.same g.hash (.text (Sql.lowerHex f.hash))).map
          fun g => (f.path, g.rank)

/-- One inconsistent rank refuses the whole lookup. -/
def requireConsistentRanks (s : Snapshot) : List Value → Except MembershipMiss Unit
  | [] => .ok ()
  | v :: vs =>
    match getInteger v with
    | .error e => .error (.store e)
    | .ok rank =>
      match s.requireConsistent rank with
      | .error e => .error e
      | .ok () => s.requireConsistentRanks vs

/-- Without authority there are candidates, and never duplicates. -/
def innerCandidates (s : Snapshot) (dir : Bytes) : Except MembershipMiss DirGroupAnswer :=
  let rows := s.candidateRows dir
  match readTexts ((rows.map FileRow.path).take (dirInnerCap + 1)) with
  | .error e => .error (.store e)
  | .ok [] => .ok (s.dirAbsence dir)
  | .ok paths =>
    let kept := paths.take dirInnerCap
    .ok (.innerCandidates kept rows.length (decide (kept.length < rows.length)))

/-- Every rank inside the directory is judged, whatever the page shows. -/
def innerDupes (s : Snapshot) (dir : Bytes) : Except MembershipMiss DirGroupAnswer :=
  let rows := s.innerRows dir
  match s.requireConsistentRanks (rows.map Prod.snd) with
  | .error e => .error e
  | .ok () =>
    if rows = [] then .ok (s.dirAbsence dir)
    else
      match readMembers s.scanId s.generation (rows.take (dirInnerCap + 1)) with
      | .error e => .error (.store e)
      | .ok members =>
        let kept := members.take dirInnerCap
        .ok (.innerDupes kept rows.length (decide (kept.length < rows.length)))

/-- `dir_group_at_fresh` -/
def dirGroupAtFresh (s : Snapshot) (t : DirTables) (dir : Bytes) :
    Except MembershipMiss DirGroupAnswer :=
  match attributedDirGroupAt t dir with
  | .error e => .error (.store e)
  | .ok (some group) => .ok (.group group)
  | .ok none => if s.mode = .unknown then s.innerCandidates dir else s.innerDupes dir

/-- What lies inside a directory is never answered as its twins. -/
theorem inside_ne_group (s : Snapshot) (dir : Bytes) (g : AttributedDirGroup) :
    s.innerCandidates dir ≠ .ok (.group g) ∧ s.innerDupes dir ≠ .ok (.group g) := by
  have habsent : s.dirAbsence dir ≠ .group g := by
    unfold dirAbsence
    split
    · exact nofun
    · split <;> exact nofun
  constructor
  · unfold innerCandidates
    simp only
    split
    · exact nofun
    · exact fun h => habsent (Except.ok.inj h)
    · exact nofun
  · unfold innerDupes
    simp only
    split
    · exact nofun
    · split
      · exact fun h => habsent (Except.ok.inj h)
      · split <;> exact nofun

/-- **The twins come first**: they are the answer whenever there are any, and only then. -/
theorem dirGroupAtFresh_group {s : Snapshot} {t : DirTables} {dir : Bytes} {g : AttributedDirGroup} :
    s.dirGroupAtFresh t dir = .ok (.group g) ↔ attributedDirGroupAt t dir = .ok (some g) := by
  unfold dirGroupAtFresh
  split
  · rename_i h; simp [h]
  · rename_i h; simp [h]
  · rename_i h
    rw [h]
    have hinside := s.inside_ne_group dir g
    split
    · exact ⟨fun h => absurd h hinside.1, nofun⟩
    · exact ⟨fun h => absurd h hinside.2, nofun⟩

end Snapshot

/-! ## Remembered answers -/

def dirGroupMemoCap : Nat := 256

/-- Answers by the directory's exact bytes, with what they were read under. -/
structure DirGroupMemo where
  scanId : Int
  mode : MembershipMode
  generation : Int
  dataVersion : Int
  answers : OrdMap Bytes DirGroupAnswer

namespace DirGroupMemo

/-- `dir_group_memo_is_current` -/
def isCurrent (memo : DirGroupMemo) (s : Snapshot) (dataVersion : Int) : Bool :=
  decide (memo.scanId = s.scanId ∧ memo.mode = s.mode ∧ memo.generation = s.generation ∧
    memo.dataVersion = dataVersion)

/-- `remembered_dir_group` -/
def remembered (memo : Option DirGroupMemo) (s : Snapshot) (dataVersion : Int) (key : Bytes) :
    Option DirGroupAnswer :=
  match memo with
  | none => none
  | some m => if m.isCurrent s dataVersion then m.answers.get? key else none

/-- A twin group longer than a listing is answered again rather than kept. -/
def keeps : DirGroupAnswer → Bool
  | .group g => decide (g.group.paths.length ≤ dirInnerCap)
  | _ => true

/-- `remember_dir_group`: a memo of another state, or one that is full, starts over. -/
def remember (memo : Option DirGroupMemo) (s : Snapshot) (dataVersion : Int) (key : Bytes)
    (answer : DirGroupAnswer) : Option DirGroupMemo :=
  if keeps answer then
    let fresh : DirGroupMemo := ⟨s.scanId, s.mode, s.generation, dataVersion, .empty⟩
    let m := match memo with
      | none => fresh
      | some m =>
        if m.isCurrent s dataVersion && decide (m.answers.entries.length < dirGroupMemoCap) then m
        else fresh
    some { m with answers := m.answers.insert key answer }
  else memo

end DirGroupMemo

/-- `dir_group_at`: the answer, and what is remembered after it. -/
def dirGroupAt (memo : Option DirGroupMemo) (s : Snapshot) (t : DirTables) (dataVersion : Int)
    (dir : Bytes) : Except MembershipMiss DirGroupAnswer × Option DirGroupMemo :=
  if ¬ isUtf8 dir then (.ok .nameNotUtf8, memo)
  else
    match DirGroupMemo.remembered memo s dataVersion dir with
    | some answer => (.ok answer, memo)
    | none =>
      match s.dirGroupAtFresh t dir with
      | .error e => (.error e, memo)
      | .ok answer => (.ok answer, DirGroupMemo.remember memo s dataVersion dir answer)

/-- Whatever the memo holds of this state is what a fresh reading answers. -/
def MemoRight (memo : Option DirGroupMemo) (s : Snapshot) (t : DirTables) (dataVersion : Int) :
    Prop :=
  ∀ dir answer, DirGroupMemo.remembered memo s dataVersion dir = some answer →
    s.dirGroupAtFresh t dir = .ok answer

theorem memoRight_none (s : Snapshot) (t : DirTables) (dataVersion : Int) :
    MemoRight none s t dataVersion := nofun

/-- Under a right memo the answer is the fresh one. -/
theorem dirGroupAt_fst {memo : Option DirGroupMemo} {s : Snapshot} {t : DirTables}
    {dataVersion : Int} (h : MemoRight memo s t dataVersion) (dir : Bytes) :
    (dirGroupAt memo s t dataVersion dir).1 =
      if isUtf8 dir then s.dirGroupAtFresh t dir else .ok .nameNotUtf8 := by
  unfold dirGroupAt
  by_cases hdir : isUtf8 dir = true
  · rw [if_neg (not_not.2 hdir), if_pos hdir]
    split
    · rename_i answer hr
      exact (h dir answer hr).symm
    · split <;> (rename_i hf; exact hf.symm)
  · rw [if_pos hdir, if_neg hdir]

theorem remembered_remember {memo : Option DirGroupMemo} {s : Snapshot} {dataVersion : Int}
    {key key' : Bytes} {answer answer' : DirGroupAnswer}
    (h : DirGroupMemo.remembered (DirGroupMemo.remember memo s dataVersion key answer) s dataVersion
      key' = some answer') :
    key' = key ∧ answer' = answer ∨ DirGroupMemo.remembered memo s dataVersion key' = some answer' := by
  unfold DirGroupMemo.remember at h
  split at h
  · obtain ⟨m, hm, hold⟩ : ∃ m : DirGroupMemo, DirGroupMemo.remembered
        (some { m with answers := m.answers.insert key answer }) s dataVersion key' = some answer' ∧
        (m.answers.get? key' = some answer' →
          DirGroupMemo.remembered memo s dataVersion key' = some answer') := by
      refine ⟨_, h, ?_⟩
      cases memo with
      | none => exact nofun
      | some m =>
        simp only [DirGroupMemo.remembered]
        split
        · rename_i hkept
          rw [if_pos (Bool.and_eq_true_iff.1 hkept).1]
          exact id
        · exact nofun
    simp only [DirGroupMemo.remembered] at hm
    split at hm
    · rw [OrdMap.get?_insert] at hm
      split at hm
      · rename_i hkey
        exact .inl ⟨hkey, (Option.some.inj hm).symm⟩
      · exact .inr (hold hm)
    · cases hm
  · exact .inr h

/-- **A cursor leaves a right memo right**: what it adds is a fresh answer. -/
theorem dirGroupAt_memoRight {memo : Option DirGroupMemo} {s : Snapshot} {t : DirTables}
    {dataVersion : Int} (h : MemoRight memo s t dataVersion) (dir : Bytes) :
    MemoRight (dirGroupAt memo s t dataVersion dir).2 s t dataVersion := by
  unfold dirGroupAt
  split
  · exact h
  · split
    · exact h
    · split
      · exact h
      · rename_i answer hfresh
        intro dir' answer' hmem
        rcases remembered_remember hmem with ⟨rfl, rfl⟩ | hold
        · exact hfresh
        · exact h dir' answer' hold

/-- What is remembered behind cursors that come to these directories one after another. -/
def memoBehind (s : Snapshot) (t : DirTables) (dataVersion : Int) (dirs : List Bytes) :
    Option DirGroupMemo :=
  dirs.foldl (fun memo dir => (dirGroupAt memo s t dataVersion dir).2) none

theorem memoRight_memoBehind (s : Snapshot) (t : DirTables) (dataVersion : Int)
    (dirs : List Bytes) : MemoRight (memoBehind s t dataVersion dirs) s t dataVersion :=
  List.foldlRecOn (motive := fun memo => MemoRight memo s t dataVersion) dirs _
    (memoRight_none s t dataVersion) fun _ h dir _ => dirGroupAt_memoRight h dir

end DedupCommando
