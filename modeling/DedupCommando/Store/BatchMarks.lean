import DedupCommando.Model.PlanObjects
import DedupCommando.Store.Marks

/-!
# The marks of a finished batch

A plan is folded from marks that were durable when it was built, its batch spends some of them, and
the next plan is folded from what is left and from what was marked since.

* `ReadFrom` — every member's mark is the one a LEFT JOIN on its stored pathname reads.
* `MarkedSince` — a pathname that carried no mark then and carries one now.
* `marks_settled` — what is spent, what is counted, what stays, and what the next plan holds.
-/

set_option autoImplicit false

namespace DedupCommando

/-- The evidence was read from `rows`: each pathname is a stored text, `spelling` says which, and
    its mark is what the join reads there. -/
structure ReadFrom (scanId : Int) (rows : List MarkRow) (spelling : Path → Bytes)
    (groups : List PlanGroupInput) : Prop where
  utf8 : ∀ g ∈ groups, ∀ m ∈ g.members, isUtf8 (spelling m.path) = true
  text : ∀ g ∈ groups, ∀ m ∈ g.members, Path.ofText (spelling m.path) = some m.path
  mark : ∀ g ∈ groups, ∀ m ∈ g.members, markAt scanId (spelling m.path) rows = .ok m.mark

/-- The pathname was marked between two states of the table. -/
def MarkedSince (scanId : Int) (text : Bytes) (earlier later : List MarkRow) : Prop :=
  ¬Marked scanId text earlier ∧ Marked scanId text later

/-- The texts that a settlement hands to the store. -/
def MarkSettlement.texts (s : MarkSettlement) (spelling : Path → Bytes) : List Bytes :=
  s.spent.map spelling

section

variable {scanId : Int} {groups : List PlanGroupInput} {plan : ActionPlan} {before : List MarkRow}
  {spelling : Path → Bytes}

theorem ReadFrom.spent_text (hread : ReadFrom scanId before spelling groups)
    (h : ActionPlan.tryNew scanId groups = .ok plan) {ran : List Bool} {p : Path}
    (hp : p ∈ (plan.settleMarks ran).spent) :
    lossyUtf8 (spelling p) = spelling p ∧ Path.ofText (spelling p) = some p := by
  obtain ⟨g, hg, -, m, hm, -, rfl⟩ := (mem_spent_iff h ran p).1 hp
  exact ⟨lossyUtf8_of_isUtf8 _ (hread.utf8 g hg m hm), hread.text g hg m hm⟩

/-- The settlement deletes the rows of the spent pathnames and no other. -/
theorem ReadFrom.mem_settled (hread : ReadFrom scanId before spelling groups)
    (h : ActionPlan.tryNew scanId groups = .ok plan) {ran : List Bool} {rows : List MarkRow}
    {r : MarkRow} :
    r ∈ clearMarks scanId ((plan.settleMarks ran).texts spelling) rows ↔
      r ∈ rows ∧
        ¬(r.scanId = scanId ∧ ∃ p ∈ (plan.settleMarks ran).spent, r.path = .text (spelling p)) := by
  rw [mem_clearMarks]
  apply and_congr_right
  intro _
  apply not_congr
  apply and_congr_right
  intro _
  constructor
  · rintro ⟨text, ht, hr⟩
    obtain ⟨p, hp, rfl⟩ := List.mem_map.1 ht
    exact ⟨p, hp, by rw [hr, (hread.spent_text h hp).1]⟩
  · rintro ⟨p, hp, hr⟩
    exact ⟨spelling p, List.mem_map_of_mem hp, by rw [hr, (hread.spent_text h hp).1]⟩

/-- A member of a touched group that is marked after the settlement was marked since the plan. -/
theorem ReadFrom.marked_settled (hread : ReadFrom scanId before spelling groups)
    (h : ActionPlan.tryNew scanId groups = .ok plan) {ran : List Bool} {rows : List MarkRow}
    {g : PlanGroupInput} (hg : g ∈ groups) (htouched : plan.Touched ran g)
    {m : PlanMemberEvidence} (hm : m ∈ g.members)
    (hmarked : Marked scanId (spelling m.path)
      (clearMarks scanId ((plan.settleMarks ran).texts spelling) rows)) :
    MarkedSince scanId (spelling m.path) before rows := by
  obtain ⟨intent, hintent⟩ := hmarked
  -- the row is still there, so the pathname is not spent
  have hnot : m.path ∉ (plan.settleMarks ran).spent := by
    intro hspent
    have hfind : findMark scanId (spelling m.path)
        (clearMarks scanId ((plan.settleMarks ran).texts spelling) rows) = none := by
      unfold findMark
      rw [List.find?_eq_none]
      intro r hr hnames
      obtain ⟨hscan, hpath⟩ := MarkRow.names_iff.1 hnames
      exact ((hread.mem_settled h).1 hr).2 ⟨hscan, m.path, hspent, hpath⟩
    rw [markAt_none hfind] at hintent
    cases hintent
  have hkept : ∀ t ∈ (plan.settleMarks ran).texts spelling, spelling m.path ≠ lossyUtf8 t := by
    intro t ht heq
    obtain ⟨p, hp, rfl⟩ := List.mem_map.1 ht
    obtain ⟨hlossy, htext⟩ := hread.spent_text h hp
    rw [hlossy] at heq
    have hsame := hread.text g hg m hm
    rw [heq, htext] at hsame
    cases hsame
    exact hnot hp
  constructor
  · rintro ⟨earlier, hearlier⟩
    rw [hread.mark g hg m hm] at hearlier
    apply hnot
    rw [mem_spent_iff h]
    exact ⟨g, hg, htouched, m, hm, by simpa using congrArg Option.isSome (Except.ok.inj hearlier),
      rfl⟩
  · exact ⟨intent, by rw [← markAt_congr (findMark_clearMarks hkept)]; exact hintent⟩

end

/-- **What a batch leaves of the marks**: it spends every mark of every group it touched and no
    other, counts the actions that did not run, and leaves the next plan no action of a touched
    group on a pathname that was not marked again. -/
theorem marks_settled {scanId : Int} {groups : List PlanGroupInput} {plan : ActionPlan}
    (h : ActionPlan.tryNew scanId groups = .ok plan) (ran : List Bool) :
    let settled := plan.settleMarks ran
    settled.spent.Nodup ∧
    (∀ p, p ∈ settled.spent ↔ ∃ g ∈ groups, plan.Touched ran g ∧
      ∃ m ∈ g.members, m.mark.isSome = true ∧ m.path = p) ∧
    (∀ g ∈ groups, ¬plan.Touched ran g → ∀ m ∈ g.members, m.path ∉ settled.spent) ∧
    settled.leftMarked + settled.leftUnmarked = (plan.idle ran).length ∧
    (settled.leftMarked = (plan.idle ran).countP fun a =>
      decide (a.1.target ∉ settled.spent ∧ a.1.keeper ∉ settled.spent)) ∧
    ∀ (before : List MarkRow) (spelling : Path → Bytes), ReadFrom scanId before spelling groups →
      ∀ rows : List MarkRow,
      let after := (reconcileMarksAfterBatch none scanId (settled.texts spelling) rows).2
      (∀ r, r ∈ after ↔ r ∈ rows ∧
        ¬(r.scanId = scanId ∧ ∃ p ∈ settled.spent, r.path = .text (spelling p))) ∧
      ∀ (later : List MarkRow) (spelling' : Path → Bytes) (groups' : List PlanGroupInput)
        (plan' : ActionPlan), ActionPlan.tryNew scanId groups' = .ok plan' →
        ReadFrom scanId later spelling' groups' → ∀ a ∈ plan'.actions,
        ∀ g ∈ groups, plan.Touched ran g → ∀ m ∈ g.members, spelling' a.target = spelling m.path →
          MarkedSince scanId (spelling m.path) before rows ∨
            MarkedSince scanId (spelling m.path) after later := by
  have hmarks := ActionPlan.tryNew_marks h
  have hpaths := (ActionPlan.tryNew_ok h).paths
  refine ⟨hmarks.nodup_spent hpaths, mem_spent_iff h ran,
    fun g hg hidle m hm => not_mem_spent h hg hidle hm, MarksRemembered.left_sum,
    hmarks.leftMarked_eq hpaths, fun before spelling hread rows =>
      ⟨fun r => hread.mem_settled h, ?_⟩⟩
  intro later spelling' groups' plan' h' hread' a ha g hg htouched m hm htext
  by_cases hafter : Marked scanId (spelling m.path)
      (reconcileMarksAfterBatch none scanId ((plan.settleMarks ran).texts spelling) rows).2
  · exact .inl (hread.marked_settled h hg htouched hm hafter)
  -- the next plan's action is one of a member that carries a mark
  refine .inr ⟨hafter, ?_⟩
  obtain ⟨g', hg', ⟨t, ht, htarget, htmark⟩, -⟩ := ((ActionPlan.tryNew_marks h').placed a ha).group
  have hmember : ∃ g ∈ groups', ∃ t ∈ g.members,
      t.path = a.target ∧ t.mark = some (.act a.kind) := by
    refine (exists_normalize fun g₁ g₂ hperm => ?_).1
      ⟨g', List.mem_of_getElem? hg', t, ht, htarget, htmark⟩
    simp only [hperm.mem_iff]
  obtain ⟨g₁, hg₁, t₁, ht₁, htarget₁, hmark₁⟩ := hmember
  have hmark := hread'.mark g₁ hg₁ t₁ ht₁
  rw [htarget₁, htext, hmark₁] at hmark
  exact ⟨_, hmark⟩

/-- The rows an operator's marks on `groups` leave. -/
def marksOn (scanId : Int) (groups : List PlanGroupInput) : List MarkRow :=
  groups.flatMap fun g => g.members.map fun m =>
    { scanId := scanId
      path := .text m.path.bytes
      isKeeper := .integer (if m.isKeeper then 1 else 0)
      action := (m.action.map fun kind => Sql.Value.text (asciiBytes kind.asStr)).getD .null }

theorem readFrom_sharedInode : ReadFrom 1 (marksOn 1 sharedInode) Path.bytes sharedInode :=
  ⟨by decide, by decide, by decide⟩

/-- Three groups, and only the first action ran: two marks are spent, two actions keep theirs. -/
theorem marks_settled_sharedInode : ∃ plan, ActionPlan.tryNew 1 sharedInode = .ok plan ∧
    plan.settleMarks [true] = ⟨[rootFile 97 isName_a, rootFile 98 isName_b], 2, 0⟩ ∧
    (∀ g ∈ sharedInode, ¬plan.Touched [true] g → ∀ m ∈ g.members,
      m.path ∉ (plan.settleMarks [true]).spent) ∧
    ∀ r, r ∈ (reconcileMarksAfterBatch none 1 ((plan.settleMarks [true]).texts Path.bytes)
        (marksOn 1 sharedInode)).2 ↔
      r ∈ marksOn 1 sharedInode ∧ ¬(r.scanId = 1 ∧ ∃ p ∈ (plan.settleMarks [true]).spent,
        r.path = .text p.bytes) := by
  have hrun : ((ActionPlan.tryNew 1 sharedInode).toOption.map fun plan => plan.settleMarks [true]) =
      some ⟨[rootFile 97 isName_a, rootFile 98 isName_b], 2, 0⟩ := by decide
  cases h : ActionPlan.tryNew 1 sharedInode with
  | error e => rw [h] at hrun; cases hrun
  | ok plan =>
    rw [h] at hrun
    obtain ⟨-, -, huntouched, -, -, hrows⟩ := marks_settled h [true]
    exact ⟨plan, rfl, Option.some.inj hrun, huntouched,
      (hrows _ _ readFrom_sharedInode (marksOn 1 sharedInode)).1⟩

end DedupCommando
