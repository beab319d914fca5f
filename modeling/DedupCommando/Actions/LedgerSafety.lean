import DedupCommando.Actions.BatchSafety

/-!
# What the ledger can miss

Between two actions, and between two calls of one action, anything may happen to the disk: every
step of a run is made in a world of its own.

* `LedgerStep`, `LedgerRun` — the transitions of a batch on its ledger, each with what it booked of
  which allocation.
* `Tracks` — an allocation's record before and after: only `ctime` is ever adopted, and one link
  for each link of the batch's own.
* `check_sees_change` — a check that passes has read every known pathname as it was recorded, and a
  poisoned allocation passes no check again.
-/

set_option autoImplicit false

namespace DedupCommando

/-! ## Transitions -/

/-- What a transition books of an allocation. -/
inductive Booking where
  | moved (source dest : Path)
  | settled
  | linked
  | refused
  deriving DecidableEq

/-- One transition of a batch, in whatever world it reads. -/
inductive LedgerStep : RuntimeLedger → List (Nat × Booking) → RuntimeLedger → Prop
  | quarantined {ledger ledger' : RuntimeLedger} {object : Nat} {source dest : Path} {w : World} :
      (ledger.quarantined object source dest w).1 = .ok ledger' →
      LedgerStep ledger [(object, .moved source dest)] ledger'
  | settled {ledger ledger' : RuntimeLedger} {object : Nat} {path : Path} {w : World} :
      (ledger.settled object path w).1 = .ok ledger' →
      LedgerStep ledger [(object, .settled)] ledger'
  | linked {ledger ledger' : RuntimeLedger} {object : Nat} {keeper published : Path} {w : World} :
      (ledger.linked object keeper published w).1 = .ok ledger' →
      LedgerStep ledger [(object, .linked)] ledger'
  | cloned {ledger ledger' : RuntimeLedger} {object target : Nat} {keeper published : Path}
      {w : World} : (ledger.cloned object target keeper published w).1 = .ok ledger' →
      LedgerStep ledger [] ledger'
  | poison {ledger : RuntimeLedger} {object : Nat} :
      LedgerStep ledger [(object, .refused)] (ledger.poison object)

inductive LedgerRun : RuntimeLedger → List (Nat × Booking) → RuntimeLedger → Prop
  | refl (ledger : RuntimeLedger) : LedgerRun ledger [] ledger
  | step {ledger ledger₁ ledger₂ : RuntimeLedger} {booked more : List (Nat × Booking)} :
      LedgerRun ledger booked ledger₁ → LedgerStep ledger₁ more ledger₂ →
      LedgerRun ledger (booked ++ more) ledger₂

theorem LedgerStep.run {ledger ledger' : RuntimeLedger} {booked : List (Nat × Booking)}
    (h : LedgerStep ledger booked ledger') : LedgerRun ledger booked ledger' := by
  simpa using (LedgerRun.refl ledger).step h

theorem LedgerRun.trans {ledger ledger₁ ledger₂ : RuntimeLedger}
    {booked more : List (Nat × Booking)} (h₁ : LedgerRun ledger booked ledger₁)
    (h₂ : LedgerRun ledger₁ more ledger₂) : LedgerRun ledger (booked ++ more) ledger₂ := by
  induction h₂ with
  | refl => simpa using h₁
  | step _ hstep ih =>
    rw [← List.append_assoc]
    exact ih.step hstep

/-! ## One allocation -/

/-- What was booked of `object`. -/
def ownOf (booked : List (Nat × Booking)) (object : Nat) : List Booking :=
  (booked.filter fun b => decide (b.1 = object)).map Prod.snd

/-- Where the batch's own moves put a pathname. -/
def follow : List Booking → Path → Path
  | [], p => p
  | .moved source dest :: own, p => follow own (if p = source then dest else p)
  | _ :: own, p => follow own p

/-- The link count after the batch's own links. -/
def linksAfter : List Booking → Nat → Nat
  | [], n => n
  | .linked :: own, n => linksAfter own (saturatingSucc n)
  | _ :: own, n => linksAfter own n

theorem ownOf_append (booked more : List (Nat × Booking)) (object : Nat) :
    ownOf (booked ++ more) object = ownOf booked object ++ ownOf more object := by
  simp [ownOf]

theorem follow_append : ∀ (own more : List Booking) (p : Path),
    follow (own ++ more) p = follow more (follow own p)
  | [], _, _ => rfl
  | .moved _ _ :: own, more, _ => follow_append own more _
  | .settled :: own, more, p => follow_append own more p
  | .linked :: own, more, p => follow_append own more p
  | .refused :: own, more, p => follow_append own more p

theorem linksAfter_append : ∀ (own more : List Booking) (n : Nat),
    linksAfter (own ++ more) n = linksAfter more (linksAfter own n)
  | [], _, _ => rfl
  | .moved _ _ :: own, more, n => linksAfter_append own more n
  | .settled :: own, more, n => linksAfter_append own more n
  | .linked :: own, more, _ => linksAfter_append own more _
  | .refused :: own, more, n => linksAfter_append own more n

/-- The record with what the batch's own transitions adopt: the `ctime` of a reading, when there
    was one, and the links they made. -/
def LiveIdentity.AdoptedFrom (live recorded : LiveIdentity) (own : List Booking) : Prop :=
  live = { recorded.withCtimeOf live with nlink := linksAfter own recorded.nlink } ∧
    (own = [] → live = recorded)

/-- An allocation's record after some of its own transitions. -/
structure Tracks (entry : ObjectState) (own : List Booking) (entry' : ObjectState) : Prop where
  identity : entry'.identity.AdoptedFrom entry.identity own
  paths : ∀ p ∈ entry.paths, follow own p ∈ entry'.paths
  settled : entry'.settled = true → entry.settled = true ∧ .refused ∉ own

theorem Tracks.refl (entry : ObjectState) : Tracks entry [] entry :=
  ⟨⟨rfl, fun _ => rfl⟩, fun _ h => h, fun h => ⟨h, List.not_mem_nil⟩⟩

theorem Tracks.trans {e e₁ e₂ : ObjectState} {own more : List Booking} (h₁ : Tracks e own e₁)
    (h₂ : Tracks e₁ more e₂) : Tracks e (own ++ more) e₂ := by
  refine ⟨⟨?_, fun hnil => ?_⟩, fun p hp => ?_, fun hs => ?_⟩
  · have ha := h₁.identity.1
    have hb := h₂.identity.1
    rw [ha] at hb
    rw [linksAfter_append]
    exact hb
  · obtain ⟨rfl, rfl⟩ := List.append_eq_nil_iff.1 hnil
    rw [h₂.identity.2 rfl, h₁.identity.2 rfl]
  · rw [follow_append]
    exact h₂.paths _ (h₁.paths p hp)
  · obtain ⟨hs₁, hmore⟩ := h₂.settled hs
    obtain ⟨hs₀, hown⟩ := h₁.settled hs₁
    exact ⟨hs₀, by simp [hown, hmore]⟩

theorem follow_mem_replacePath {paths : List Path} {source dest p : Path} (hp : p ∈ paths) :
    (if p = source then dest else p) ∈ replacePath paths source dest := by
  unfold replacePath
  by_cases hmem : source ∈ paths
  · rw [if_pos hmem]
    have hlt := List.idxOf_lt_length_of_mem hmem
    by_cases hps : p = source
    · rw [if_pos hps]
      exact List.mem_set hlt dest
    · rw [if_neg hps]
      obtain ⟨n, hn, rfl⟩ := List.mem_iff_getElem.1 hp
      refine List.mem_iff_getElem.2 ⟨n, by rw [List.length_set]; exact hn, ?_⟩
      rw [List.getElem_set_ne]
      rintro rfl
      exact hps (List.getElem_idxOf hlt)
  · have hps : p ≠ source := fun h => hmem (h ▸ hp)
    rw [if_neg hmem, if_neg hps]
    exact List.mem_append_left _ hp

/-- Only the booked allocation moves. -/
theorem getElem?_adopt {ledger : RuntimeLedger} {object o : Nat} {entry entry' : ObjectState}
    (hentry : ledger.objects[object]? = some entry) :
    (ledger.adopt object entry').objects[o]? =
      if object = o then some entry' else ledger.objects[o]? := by
  unfold RuntimeLedger.adopt
  simp only
  by_cases h : object = o
  · subst h
    rw [List.getElem?_set_self (List.getElem?_eq_some_iff.1 hentry).1, if_pos rfl]
  · rw [List.getElem?_set_ne h, if_neg h]

theorem ownOf_single (object o : Nat) (booking : Booking) :
    ownOf [(object, booking)] o = if object = o then [booking] else [] := by
  unfold ownOf
  by_cases h : object = o <;> simp [h]

/-- A transition that books one allocation and replaces its record. -/
theorem tracks_adopt {ledger : RuntimeLedger} {object o : Nat} {entry entry' e : ObjectState}
    {booking : Booking} (hentry : ledger.objects[object]? = some entry)
    (htracks : Tracks entry [booking] entry') (he : ledger.objects[o]? = some e) :
    ∃ e', (ledger.adopt object entry').objects[o]? = some e' ∧
      Tracks e (ownOf [(object, booking)] o) e' := by
  rw [getElem?_adopt hentry, ownOf_single]
  by_cases h : object = o
  · subst h
    rw [hentry] at he
    cases he
    rw [if_pos rfl, if_pos rfl]
    exact ⟨entry', rfl, htracks⟩
  · rw [if_neg h, if_neg h]
    exact ⟨e, he, Tracks.refl e⟩

/-- **One transition**: every allocation's record follows what was booked of it. -/
theorem LedgerStep.tracks {ledger ledger' : RuntimeLedger} {booked : List (Nat × Booking)}
    (h : LedgerStep ledger booked ledger') {o : Nat} {e : ObjectState}
    (he : ledger.objects[o]? = some e) :
    ∃ e', ledger'.objects[o]? = some e' ∧ Tracks e (ownOf booked o) e' := by
  cases h with
  | quarantined h =>
    obtain ⟨entry, live, hentry, -, hlive, rfl⟩ := RuntimeLedger.quarantined_ok h
    refine tracks_adopt hentry ⟨⟨?_, nofun⟩, fun p hp => follow_mem_replacePath hp,
      fun hs => ⟨hs, by simp⟩⟩ he
    exact hlive
  | settled h =>
    obtain ⟨entry, live, hentry, -, hlive, rfl⟩ := RuntimeLedger.settled_ok h
    exact tracks_adopt hentry ⟨⟨hlive, nofun⟩, fun p hp => hp, fun hs => ⟨hs, by simp⟩⟩ he
  | linked h =>
    obtain ⟨entry, live, hentry, -, -, hlive, rfl⟩ := RuntimeLedger.linked_ok h
    exact tracks_adopt hentry ⟨⟨hlive, nofun⟩, fun p hp => List.mem_append_left _ hp,
      fun hs => ⟨hs, by simp⟩⟩ he
  | cloned h =>
    obtain ⟨identity, hobjects⟩ := RuntimeLedger.cloned_ok h
    refine ⟨e, ?_, Tracks.refl e⟩
    rw [hobjects, List.getElem?_append_left (List.getElem?_eq_some_iff.1 he).1]
    exact he
  | poison =>
    rename_i object
    unfold RuntimeLedger.poison
    rw [ownOf_single, List.getElem?_modify, he]
    by_cases h : object = o
    · rw [if_pos h]
      exact ⟨{ e with settled := false }, by simp [h], ⟨rfl, nofun⟩, fun p hp => hp, nofun⟩
    · rw [if_neg h]
      exact ⟨e, by simp [h], Tracks.refl e⟩

/-- **A whole run**, transition by transition. -/
theorem LedgerRun.tracks {ledger ledger' : RuntimeLedger} {booked : List (Nat × Booking)}
    (h : LedgerRun ledger booked ledger') {o : Nat} {e : ObjectState}
    (he : ledger.objects[o]? = some e) :
    ∃ e', ledger'.objects[o]? = some e' ∧ Tracks e (ownOf booked o) e' := by
  induction h with
  | refl => exact ⟨e, he, Tracks.refl e⟩
  | step _ hstep ih =>
    obtain ⟨e₁, he₁, h₁⟩ := ih
    obtain ⟨e₂, he₂, h₂⟩ := hstep.tracks he₁
    refine ⟨e₂, he₂, ?_⟩
    rw [ownOf_append]
    exact h₁.trans h₂

/-! ## The batch's transitions -/

namespace Batch

/-- What an action books is of its own two allocations, and it moves nothing but its target. -/
def OfAction (action : PlanAction) (k : Nat × Booking) : Prop :=
  (k.1 = action.targetObject ∨ k.1 = action.keeperObject) ∧
    ∀ source dest, k.2 = .moved source dest → source = action.target

/-- A run of transitions on an action's own two allocations. -/
def Books (action : PlanAction) (ledger ledger' : RuntimeLedger) : Prop :=
  ∃ booked, LedgerRun ledger booked ledger' ∧ ∀ k ∈ booked, OfAction action k

theorem Books.refl (action : PlanAction) (ledger : RuntimeLedger) : Books action ledger ledger :=
  ⟨[], .refl ledger, by simp⟩

/-- One transition that moves nothing but the action's target, of one of its allocations. -/
theorem books_of_step {action : PlanAction} {ledger ledger' : RuntimeLedger} {object : Nat}
    {booking : Booking} (h : LedgerStep ledger [(object, booking)] ledger')
    (hobject : object = action.targetObject ∨ object = action.keeperObject)
    (hmoved : ∀ source dest, booking = .moved source dest → source = action.target) :
    Books action ledger ledger' :=
  ⟨_, h.run, fun k hk => by rw [List.mem_singleton.1 hk]; exact ⟨hobject, hmoved⟩⟩

theorem Books.trans {action : PlanAction} {l₁ l₂ l₃ : RuntimeLedger} (h₁ : Books action l₁ l₂)
    (h₂ : Books action l₂ l₃) : Books action l₁ l₃ := by
  obtain ⟨booked, hrun, hown⟩ := h₁
  obtain ⟨more, hrun', hown'⟩ := h₂
  exact ⟨booked ++ more, hrun.trans hrun',
    fun k hk => (List.mem_append.1 hk).elim (hown k) (hown' k)⟩

theorem books_poison_target (action : PlanAction) (ledger : RuntimeLedger) :
    Books action ledger (ledger.poison action.targetObject) :=
  books_of_step .poison (.inl rfl) nofun

theorem books_poison_keeper (action : PlanAction) (ledger : RuntimeLedger) :
    Books action ledger (ledger.poison action.keeperObject) :=
  books_of_step .poison (.inr rfl) nofun

theorem linkTransition_books {action : PlanAction} {linkage : Option Linkage}
    {ledger ledger' : RuntimeLedger} {w : World}
    (h : (linkTransition action linkage ledger w).1 = .ok ledger') :
    Books action ledger ledger' := by
  unfold linkTransition at h
  split at h
  · cases h
    exact Books.refl action ledger
  · exact books_of_step (.linked h) (.inr rfl) nofun
  · exact ⟨_, (LedgerStep.cloned h).run, by simp⟩

theorem afterMove_books (action : PlanAction) (moved : Path) (linkage : Option Linkage)
    (b : Batch) (w : World) :
    Books action b.ledger (b.afterMove action moved linkage w).2.1.ledger := by
  unfold afterMove
  split
  · exact (books_poison_target action _).trans (books_poison_keeper action _)
  · rename_i ledger w₁ h
    have hmove : Books action b.ledger ledger :=
      books_of_step (.quarantined (by rw [h])) (.inl rfl) fun _ _ h => by cases h; rfl
    split
    · exact hmove.trans ((books_poison_target action _).trans (books_poison_keeper action _))
    · rename_i h₂
      exact hmove.trans (linkTransition_books (by rw [h₂]))

theorem targetSettle_books {action : PlanAction} {published : Publication}
    {ledger ledger' : RuntimeLedger} {w : World}
    (h : (targetSettle action published ledger w).1 = .ok ledger') :
    Books action ledger ledger' := by
  unfold targetSettle at h
  split at h
  · exact books_of_step (.quarantined h) (.inl rfl) fun _ _ h => by cases h; rfl
  · exact books_of_step (.settled h) (.inl rfl) nofun

theorem bookedIn_books {action : PlanAction} {outcome : Except PlanRefusal RuntimeLedger}
    {ledger : RuntimeLedger} (h : ∀ ledger', outcome = .ok ledger' → Books action ledger ledger') :
    Books action ledger (bookedIn outcome ledger) := by
  cases outcome with
  | error e => exact Books.refl action ledger
  | ok ledger' => exact h ledger' rfl

theorem settleOrPoison_books {action : PlanAction} {object : Nat}
    (hown : object = action.targetObject ∨ object = action.keeperObject)
    (outcome : Except PlanRefusal RuntimeLedger) (ledger : RuntimeLedger) :
    Books action ledger (settleOrPoison object outcome ledger).2 := by
  cases outcome with
  | ok _ => exact Books.refl action ledger
  | error e =>
    rcases hown with rfl | rfl
    · exact books_poison_target action ledger
    · exact books_poison_keeper action ledger

theorem settleBoth_books (action : PlanAction) (published : Publication) (b : Batch) (w : World) :
    Books action b.ledger (b.settleBoth action published w).2.1.ledger := by
  have htarget : Books action b.ledger
      (bookedIn (targetSettle action published b.ledger w).1 b.ledger) :=
    bookedIn_books fun _ h => targetSettle_books h
  unfold settleBoth
  generalize targetSettle action published b.ledger w = step at htarget
  obtain ⟨target, w₁⟩ := step
  simp only at htarget ⊢
  have hkeeper : Books action (bookedIn target b.ledger)
      (bookedIn ((bookedIn target b.ledger).settled action.keeperObject action.keeper w₁).1
        (bookedIn target b.ledger)) :=
    bookedIn_books fun _ h => books_of_step (.settled h) (.inr rfl) nofun
  exact (htarget.trans hkeeper).trans ((settleOrPoison_books (.inl rfl) _ _).trans
    (settleOrPoison_books (.inr rfl) _ _))

theorem noteQuarantine_ledger (dir : Path) (b : Batch) : (b.noteQuarantine dir).ledger = b.ledger := by
  unfold noteQuarantine
  split <;> rfl

theorem finishPublication_books (action : PlanAction) (dir : Path) (published : Publication)
    (linkage : Linkage) (b : Batch) (w : World) :
    Books action b.ledger (b.finishPublication action dir published linkage w).2.1.ledger := by
  unfold finishPublication
  split
  · rw [← noteQuarantine_ledger dir b]; exact afterMove_books _ _ _ _ w
  · rw [← noteQuarantine_ledger dir b]; exact settleBoth_books _ _ _ w
  · exact settleBoth_books _ _ _ w

/-- One action's transitions, in any world, are on its own two allocations. -/
theorem applyOne_books (index : Nat) (action : PlanAction) (b : Batch) (w : World) :
    Books action b.ledger (b.applyOne index action w).2.1.ledger := by
  obtain ⟨-, -, hledger, -⟩ := admission_spec index action b w.pause
  unfold applyOne
  split
  · rename_i h
    rw [h] at hledger
    rw [← hledger]
    exact Books.refl action _
  rename_i dataset b₁ w₁ h
  rw [h] at hledger
  rw [← hledger]
  unfold carryOut
  simp only
  split
  · split
    · exact Books.refl action _
    · rw [← noteQuarantine_ledger (quarantineDir dataset.mountpoint b₁.timestamp) b₁]
      exact afterMove_books _ _ _ _ _
  · exact finishPublication_books _ _ _ _ _ _
  · exact finishPublication_books _ _ _ _ _ _

end Batch

/-- A run of a batch from one state to another, action by action, each in whatever world it
    meets. -/
inductive BatchRun (plan : ActionPlan) : Batch → List Nat → Batch → Prop
  | refl (b : Batch) : BatchRun plan b [] b
  | step {b b₁ : Batch} {indices : List Nat} {index : Nat} {action : PlanAction} (w : World) :
      BatchRun plan b indices b₁ → plan.actions[index]? = some action →
      BatchRun plan b (indices ++ [index]) (b₁.applyOne index action w).2.1

/-- The ledger's run behind a run of the batch. -/
theorem BatchRun.books {plan : ActionPlan} {b b' : Batch} {indices : List Nat}
    (h : BatchRun plan b indices b') : ∃ booked, LedgerRun b.ledger booked b'.ledger ∧
      ∀ k ∈ booked, ∃ i ∈ indices, ∃ action, plan.actions[i]? = some action ∧
        Batch.OfAction action k := by
  induction h with
  | refl => exact ⟨[], .refl _, by simp⟩
  | @step b₁ indices index action w _ haction ih =>
    obtain ⟨booked, hrun, hown⟩ := ih
    obtain ⟨more, hmore, hact⟩ := b₁.applyOne_books index action w
    refine ⟨booked ++ more, hrun.trans hmore, fun k hk => ?_⟩
    rcases List.mem_append.1 hk with hk | hk
    · obtain ⟨i, hi, a, ha, hka⟩ := hown k hk
      exact ⟨i, List.mem_append_left _ hi, a, ha, hka⟩
    · exact ⟨index, by simp, action, haction, hact k hk⟩

/-! ## What a check has read -/

/-- The world in which a check reads `p`, after the pathnames before it. -/
def readBefore : List Path → Path → World → World
  | [], _, w => w
  | q :: qs, p, w => if q = p then w else readBefore qs p (liveIdentity q w).2

theorem checkPaths_ok {identity : LiveIdentity} : ∀ {paths : List Path} {w : World},
    (checkPaths identity paths w).1 = .ok () →
      ∀ p ∈ paths, (liveIdentity p (readBefore paths p w)).1 = .ok identity
  | [], _, _, p, hp => by cases hp
  | q :: qs, w, h, p, hp => by
    unfold checkPaths at h
    split at h
    · cases h
    rename_i live w₁ hlive
    split at h
    · cases h
    rename_i hnone
    have hrest := checkPaths_ok h
    rw [← driftBetween_eq_none.1 hnone] at hlive
    unfold readBefore
    split
    · rename_i hqp
      rw [← hqp, hlive]
    · rename_i hqp
      rw [hlive]
      exact hrest p ((List.mem_cons.1 hp).resolve_left fun h => hqp h.symm)

/-- A check that passes is of a trusted allocation and has read its record at every pathname. -/
theorem RuntimeLedger.check_ok {ledger : RuntimeLedger} {object : Nat} {w : World}
    (h : (ledger.check object w).1 = .ok ()) {entry : ObjectState}
    (hentry : ledger.objects[object]? = some entry) : entry.settled = true ∧
      ∀ p ∈ entry.paths, (liveIdentity p (readBefore entry.paths p w)).1 = .ok entry.identity := by
  unfold check at h
  rw [hentry] at h
  simp only at h
  split at h
  · cases h
  · rename_i hs
    exact ⟨by simpa using hs, checkPaths_ok h⟩

/-- **What a passed check rules out**, over any run of the batch.  A poisoned allocation is refused
    from then on.  Otherwise every pathname the ledger knew before the run is read, where the batch's
    own moves put it, as the same inode with the same size and times of change, with as many more
    links as the batch made, and with the very same `ctime` unless a transition of the batch's own
    on that allocation came in between. -/
theorem check_sees_change {plan : ActionPlan} {b b' : Batch} {indices : List Nat}
    (hrun : BatchRun plan b indices b') : ∃ booked : List (Nat × Booking),
    LedgerRun b.ledger booked b'.ledger ∧
    (∀ k ∈ booked, ∃ i ∈ indices, ∃ action, plan.actions[i]? = some action ∧
      Batch.OfAction action k) ∧
    ∀ object entry, b.ledger.objects[object]? = some entry →
      ∃ entry', b'.ledger.objects[object]? = some entry' ∧
        entry'.identity.AdoptedFrom entry.identity (ownOf booked object) ∧ ∀ w,
        (entry.settled = false ∨ .refused ∈ ownOf booked object →
          ∃ path, (b'.ledger.check object w).1 = .error (.unsettledObject path)) ∧
        ((b'.ledger.check object w).1 = .ok () → ∀ p ∈ entry.paths,
          follow (ownOf booked object) p ∈ entry'.paths ∧
          (liveIdentity (follow (ownOf booked object) p)
            (readBefore entry'.paths (follow (ownOf booked object) p) w)).1 =
              .ok entry'.identity) := by
  obtain ⟨booked, hledger, hown⟩ := hrun.books
  refine ⟨booked, hledger, hown, fun object entry hentry => ?_⟩
  obtain ⟨entry', hentry', htracks⟩ := hledger.tracks hentry
  refine ⟨entry', hentry', htracks.identity, fun w => ⟨fun hpoisoned => ?_, fun hok p hp => ?_⟩⟩
  · have hsettled : entry'.settled = false := by
      by_contra hs
      obtain ⟨h₁, h₂⟩ := htracks.settled (by simpa using hs)
      rcases hpoisoned with h | h
      · rw [h₁] at h; cases h
      · exact h₂ h
    unfold RuntimeLedger.check
    rw [hentry']
    simp only
    rw [if_pos hsettled]
    exact ⟨_, rfl⟩
  · obtain ⟨-, hread⟩ := RuntimeLedger.check_ok hok hentry'
    exact ⟨htracks.paths p hp, hread _ (htracks.paths p hp)⟩

/-! ## A deletion and a hardlink -/

/-- `/a` is kept, `/b` is deleted, and `/c` is to become a hardlink of `/a`. -/
def deleteAndLink : List PlanGroupInput :=
  [⟨⟨1, 0, 5⟩, "aa",
    [sampleMember 97 isName_a 1 1 .keeper, sampleMember 98 isName_b 9 1 (.act .delete),
      sampleMember 99 isName_c 3 1 (.act .hardlink)]⟩]

/-- `/a`, `/b` and `/c`, an inode each. -/
def threeFiles : Filesystem where
  entries p :=
    if p = rootFile 97 isName_a then some ⟨7, 1⟩
    else if p = rootFile 98 isName_b then some ⟨7, 9⟩
    else if p = rootFile 99 isName_c then some ⟨7, 3⟩ else none
  nodes i := if i = ⟨7, 1⟩ ∨ i = ⟨7, 9⟩ ∨ i = ⟨7, 3⟩ then some sampleNode else none
  live p i h := by
    split at h
    · cases h; rfl
    · split at h
      · cases h; rfl
      · split at h
        · cases h; rfl
        · cases h

/-- The ledger's record of `inode` on `threeFiles`. -/
def sampleState (inode : Nat) (path : Path) : ObjectState :=
  ⟨sampleNode.identity ⟨7, inode⟩, [path], true⟩

/-- A batch over `threeFiles`, its snapshot taken. -/
def sampleBatch (plan : ActionPlan) : Batch :=
  { plan := plan
    datasets := [⟨"tank", [.rootDir], some 7, none⟩]
    timestamp := stagingItem
    reflinkSafe := true
    mode := .strict
    obstacles := [none]
    guarded := ["tank"]
    verified := []
    quarantineDirs := []
    ledger := ⟨[sampleState 1 (rootFile 97 isName_a), sampleState 9 (rootFile 98 isName_b),
      sampleState 3 (rootFile 99 isName_c)]⟩ }

/-- The batch and the world behind both actions. -/
def behindBoth (plan : ActionPlan) (a₀ a₁ : PlanAction) : Batch × World :=
  let first := ((sampleBatch plan).applyOne 0 a₀ (quietRun threeFiles)).2
  (first.1.applyOne 1 a₁ first.2).2

/-- The keeper has the batch's link, the deleted file is no longer where it was, and every
    allocation passes its check. -/
def SettlesBoth (run : Batch × World) : Prop :=
  (∀ entry ∈ run.1.ledger.objects[0]?, entry.identity.nlink = 2) ∧
  (∀ entry ∈ run.1.ledger.objects[1]?, rootFile 98 isName_b ∉ entry.paths) ∧
  ∀ object < 3, (run.1.ledger.check object run.2).1 = .ok ()

instance (run : Batch × World) : Decidable (SettlesBoth run) :=
  inferInstanceAs (Decidable (_ ∧ _ ∧ _))

theorem check_sees_change_both : ∃ plan a₀ a₁ booked,
    ActionPlan.tryNew 1 deleteAndLink = .ok plan ∧ plan.actions[0]? = some a₀ ∧
    plan.actions[1]? = some a₁ ∧ SettlesBoth (behindBoth plan a₀ a₁) ∧
    (ownOf booked 0 ≠ [] ∧ ownOf booked 1 ≠ []) ∧
    LedgerRun (sampleBatch plan).ledger booked (behindBoth plan a₀ a₁).1.ledger ∧
    (∀ k ∈ booked, ∃ i ∈ [0, 1], ∃ action, plan.actions[i]? = some action ∧
      Batch.OfAction action k) ∧
    ∀ object entry, (sampleBatch plan).ledger.objects[object]? = some entry →
      ∃ entry', (behindBoth plan a₀ a₁).1.ledger.objects[object]? = some entry' ∧
        entry'.identity.AdoptedFrom entry.identity (ownOf booked object) ∧ ∀ w,
        (entry.settled = false ∨ .refused ∈ ownOf booked object →
          ∃ path, ((behindBoth plan a₀ a₁).1.ledger.check object w).1 =
            .error (.unsettledObject path)) ∧
        (((behindBoth plan a₀ a₁).1.ledger.check object w).1 = .ok () → ∀ p ∈ entry.paths,
          follow (ownOf booked object) p ∈ entry'.paths ∧
          (liveIdentity (follow (ownOf booked object) p)
            (readBefore entry'.paths (follow (ownOf booked object) p) w)).1 =
              .ok entry'.identity) := by
  have hrun : ((ActionPlan.tryNew 1 deleteAndLink).toOption.any fun plan =>
      plan.actions[0]?.any fun a₀ => plan.actions[1]?.any fun a₁ =>
        decide (SettlesBoth (behindBoth plan a₀ a₁))) = true := by decide
  cases h : ActionPlan.tryNew 1 deleteAndLink with
  | error e => rw [h] at hrun; cases hrun
  | ok plan =>
  rw [h] at hrun
  simp only [Except.toOption, Option.any_some] at hrun
  obtain ⟨a₀, h₀, hrun⟩ := (Option.any_eq_true _ _).1 hrun
  obtain ⟨a₁, h₁, hrun⟩ := (Option.any_eq_true _ _).1 hrun
  obtain ⟨booked, hledger, hown, hobjects⟩ := check_sees_change
    (((BatchRun.refl (sampleBatch plan)).step (quietRun threeFiles) h₀).step
      ((sampleBatch plan).applyOne 0 a₀ (quietRun threeFiles)).2.2 h₁)
  have hsettles := of_decide_eq_true hrun
  refine ⟨plan, a₀, a₁, booked, rfl, h₀, h₁, hsettles, ⟨fun hnil => ?_, fun hnil => ?_⟩,
    hledger, hown, hobjects⟩
  · -- the keeper's record has one link more
    obtain ⟨entry', hentry', hadopted, -⟩ := hobjects 0 _ rfl
    have hlink := hsettles.1 entry' hentry'
    rw [hadopted.2 hnil] at hlink
    cases hlink
  · -- the check of the deleted allocation reads it where its move put it
    obtain ⟨entry', hentry', -, hreads⟩ := hobjects 1 _ rfl
    have hpath := ((hreads _).2 (hsettles.2.2 1 (by decide)) _ List.mem_cons_self).1
    rw [hnil] at hpath
    exact hsettles.2.1 entry' hentry' hpath

end DedupCommando
