import DedupCommando.Browse.Requests

/-!
# The fleet

At most one actor over the database, and replacement strictly one after the other.

* `FleetState`, `BrowseFleet` — the one actor with its handle and its join handle, and the wish
  for a successor kept beside it.
* `spawn`, `begin_close`, `replace`, `cancel_pending_spawn`, `take_terminal` — the operations.
* `History`, `History.step` — a fleet with every actor it ever made and every one it gave back.
* `answer_cases`, `answer_spawn`, `answer_terminal`, `answer_sends`, `answer_stays` — what one call
  does.
* `accounted_run`, `fleet_owns_one` — **over every run, what was made is what was given back and
  then what is owned.**
-/

set_option autoImplicit false

namespace DedupCommando

namespace Browse

/-- Why an actor's life ended. -/
inductive CloseCause where
  | requested
  | panicked (text : String)
  deriving DecidableEq

/-- What to spawn once the retiring actor is gone. -/
structure PendingSpawn where
  role : BrowseRole
  reopen : Option Int
  deriving DecidableEq

/-- An actor that died of a panic never gets a successor. -/
def CloseCause.leaves (pending : Option PendingSpawn) : CloseCause → Option PendingSpawn
  | .requested => pending
  | .panicked _ => none

section Fleet

variable {H J : Type}

/-- An actor with its handle and its join handle: what `spawn` makes and a retirement gives
    back. -/
structure RetiredActor (H J : Type) where
  actor : Nat
  handle : H
  join : J
  deriving DecidableEq

inductive FleetState (H J : Type) where
  | idle
  | live (owned : RetiredActor H J)
  | draining (owned : RetiredActor H J)

structure BrowseFleet (H J : Type) where
  state : FleetState H J
  pending : Option PendingSpawn

namespace BrowseFleet

def new : BrowseFleet H J := ⟨.idle, none⟩

/-- Whatever the fleet has in its hands. -/
def owned (f : BrowseFleet H J) : Option (RetiredActor H J) :=
  match f.state with
  | .idle => none
  | .live a => some a
  | .draining a => some a

/-- `spawn_inner`: refused unless the fleet is idle; `made` is the actor it would make. -/
def spawn (f : BrowseFleet H J) (made : RetiredActor H J) :
    Option Nat × BrowseFleet H J :=
  match f.state with
  | .idle => (some made.actor, { f with state := .live made })
  | _ => (none, f)

/-- `begin_close`; `sent` says whether the `Shutdown` found a receiver. -/
def begin_close (f : BrowseFleet H J) (sent : Bool) :
    Option (RetiredActor H J) × BrowseFleet H J :=
  match f.state with
  | .live a =>
    if sent then (none, { f with state := .draining a })
    else (some a, ⟨.idle, none⟩)
  | _ => (none, f)

/-- `replace`: remember the wish and close the live actor, if there is one. -/
def replace (f : BrowseFleet H J) (role : BrowseRole) (reopen : Option Int) (sent : Bool) :
    Option (RetiredActor H J) × BrowseFleet H J :=
  let f := { f with pending := some ⟨role, reopen⟩ }
  match f.state with
  | .live _ => f.begin_close sent
  | _ => (none, f)

def cancel_pending_spawn (f : BrowseFleet H J) : BrowseFleet H J := { f with pending := none }

/-- `take_terminal`: only the terminal of the owned actor counts, and only once. -/
def take_terminal (f : BrowseFleet H J) (actor : Nat) (cause : CloseCause) :
    Option (RetiredActor H J) × BrowseFleet H J :=
  let matchesActor := match f.state with
    | .live a => decide (a.actor = actor)
    | .draining a => decide (a.actor = actor)
    | .idle => false
  if !matchesActor then (none, f)
  else (f.owned, ⟨.idle, cause.leaves f.pending⟩)

/-- The terminal of anyone but the owned actor is not seen; the owned actor's takes it. -/
theorem take_terminal_cases (f : BrowseFleet H J) (actor : Nat) (cause : CloseCause) :
    (f.take_terminal actor cause = (none, f) ∧ ∀ a, f.owned = some a → a.actor ≠ actor) ∨
      ∃ a, f.owned = some a ∧ a.actor = actor ∧ f.take_terminal actor cause =
        (some a, ⟨.idle, cause.leaves f.pending⟩) := by
  obtain ⟨state, pending⟩ := f
  cases state with
  | idle => exact .inl ⟨rfl, fun _ h => (by cases h)⟩
  | live a =>
    by_cases hactor : a.actor = actor
    · refine .inr ⟨a, rfl, hactor, ?_⟩
      simp [take_terminal, owned, hactor]
    · refine .inl ⟨by simp [take_terminal, hactor], fun b hb => ?_⟩
      cases hb
      exact hactor
  | draining a =>
    by_cases hactor : a.actor = actor
    · refine .inr ⟨a, rfl, hactor, ?_⟩
      simp [take_terminal, owned, hactor]
    · refine .inl ⟨by simp [take_terminal, hactor], fun b hb => ?_⟩
      cases hb
      exact hactor

end BrowseFleet

/-! ## Runs -/

/-- One call of the fleet's owner, or one `Closed` event that reaches it. -/
inductive FleetOp (H J : Type) where
  | spawn (handle : H) (join : J)
  | begin_close (sent : Bool)
  | replace (role : BrowseRole) (reopen : Option Int) (sent : Bool)
  | cancel_pending_spawn
  | take_terminal (actor : Nat) (cause : CloseCause)

/-- What one call made and what it gave back. -/
structure FleetAnswer (H J : Type) where
  made : Option (RetiredActor H J)
  retired : Option (RetiredActor H J)

/-- A fleet, the process's actor counter, and all that was made and given back so far. -/
structure History (H J : Type) where
  fleet : BrowseFleet H J
  issued : Nat
  made : List (RetiredActor H J)
  returned : List (RetiredActor H J)

namespace History

def start : History H J := ⟨.new, 0, [], []⟩

def answer (h : History H J) : FleetOp H J → FleetAnswer H J × BrowseFleet H J
  | .spawn handle join =>
    let made := ⟨h.issued + 1, handle, join⟩
    match h.fleet.spawn made with
    | (some _, f) => (⟨some made, none⟩, f)
    | (none, f) => (⟨none, none⟩, f)
  | .begin_close sent =>
    let (retired, f) := h.fleet.begin_close sent
    (⟨none, retired⟩, f)
  | .replace role reopen sent =>
    let (retired, f) := h.fleet.replace role reopen sent
    (⟨none, retired⟩, f)
  | .cancel_pending_spawn => (⟨none, none⟩, h.fleet.cancel_pending_spawn)
  | .take_terminal actor cause =>
    let (retired, f) := h.fleet.take_terminal actor cause
    (⟨none, retired⟩, f)

def step (h : History H J) (op : FleetOp H J) : History H J :=
  let (a, f) := h.answer op
  ⟨f, h.issued + a.made.toList.length, h.made ++ a.made.toList,
    h.returned ++ a.retired.toList⟩

def run (ops : List (FleetOp H J)) : History H J := ops.foldl step start

/-- A call that observes the death of an actor whose cause is a panic or not known. -/
def diedBadly : FleetOp H J → Bool
  | .take_terminal _ (.panicked _) => true
  | .begin_close sent => !sent
  | .replace _ _ sent => !sent
  | _ => false

/-- Whether the `Shutdown` of a call that closes found a receiver. -/
def sends : FleetOp H J → Option Bool
  | .begin_close sent => some sent
  | .replace _ _ sent => some sent
  | _ => none

/-! ## What one call does -/

/-- **Everything a call can do to the owned actor**: nothing, make one in empty hands, or give
    the owned one back. -/
theorem answer_cases (h : History H J) (op : FleetOp H J) :
    ((h.answer op).1.made = none ∧ (h.answer op).1.retired = none ∧
        (h.answer op).2.owned = h.fleet.owned) ∨
      (∃ a, (h.answer op).1 = ⟨some a, none⟩ ∧ a.actor = h.issued + 1 ∧ h.fleet.owned = none ∧
        (h.answer op).2.owned = some a) ∨
      ∃ a, (h.answer op).1 = ⟨none, some a⟩ ∧ h.fleet.owned = some a ∧
        (h.answer op).2.owned = none ∧ (diedBadly op = true → (h.answer op).2.pending = none) := by
  obtain ⟨⟨state, pending⟩, issued, made, returned⟩ := h
  cases op with
  | spawn handle join =>
    cases state
    · exact .inr (.inl ⟨⟨issued + 1, handle, join⟩, rfl, rfl, rfl, rfl⟩)
    all_goals exact .inl ⟨rfl, rfl, rfl⟩
  | begin_close sent =>
    cases state with
    | live a =>
      cases sent
      · exact .inr (.inr ⟨a, rfl, rfl, rfl, fun _ => rfl⟩)
      · exact .inl ⟨rfl, rfl, rfl⟩
    | idle => exact .inl ⟨rfl, rfl, rfl⟩
    | draining a => exact .inl ⟨rfl, rfl, rfl⟩
  | replace role reopen sent =>
    cases state with
    | live a =>
      cases sent
      · exact .inr (.inr ⟨a, rfl, rfl, rfl, fun _ => rfl⟩)
      · exact .inl ⟨rfl, rfl, rfl⟩
    | idle => exact .inl ⟨rfl, rfl, rfl⟩
    | draining a => exact .inl ⟨rfl, rfl, rfl⟩
  | cancel_pending_spawn => exact .inl ⟨rfl, rfl, rfl⟩
  | take_terminal actor cause =>
    rcases BrowseFleet.take_terminal_cases ⟨state, pending⟩ actor cause with ⟨heq, _⟩ | ⟨a, ha, _, heq⟩
    · refine .inl ⟨rfl, ?_, ?_⟩
      · simp only [answer, heq]
      · simp only [answer, heq]
    · refine .inr (.inr ⟨a, ?_, ha, ?_, fun hbad => ?_⟩)
      · simp only [answer, heq]
      · simp only [answer, heq]
        rfl
      · simp only [answer, heq]
        cases cause with
        | requested => cases hbad
        | panicked text => rfl

/-- An idle fleet makes the actor it is asked for. -/
theorem answer_spawn {h : History H J} (hidle : h.fleet.owned = none) (handle : H) (join : J) :
    h.answer (.spawn handle join) = (⟨some ⟨h.issued + 1, handle, join⟩, none⟩,
      { h.fleet with state := .live ⟨h.issued + 1, handle, join⟩ }) := by
  obtain ⟨⟨state, pending⟩, issued, made, returned⟩ := h
  cases state with
  | idle => rfl
  | live a => cases hidle
  | draining a => cases hidle

/-- The terminal of the owned actor gives it back whole. -/
theorem answer_terminal {h : History H J} {a : RetiredActor H J} (howned : h.fleet.owned = some a)
    (cause : CloseCause) : h.answer (.take_terminal a.actor cause) =
      (⟨none, some a⟩, ⟨.idle, cause.leaves h.fleet.pending⟩) := by
  rcases BrowseFleet.take_terminal_cases h.fleet a.actor cause with ⟨-, hother⟩ | ⟨b, hb, -, heq⟩
  · exact absurd rfl (hother a howned)
  · rw [howned] at hb
    cases hb
    simp only [answer, heq]

/-- A close of the live actor leaves it draining, or gives it back when it finds nobody. -/
theorem answer_sends {h : History H J} {a : RetiredActor H J} (hlive : h.fleet.state = .live a)
    {op : FleetOp H J} {sent : Bool} (hsends : sends op = some sent) :
    (h.answer op).1.retired = (if sent then none else some a) ∧
      (h.answer op).2.state = (if sent then .draining a else .idle) := by
  obtain ⟨⟨state, pending⟩, issued, made, returned⟩ := h
  cases hlive
  cases op with
  | begin_close found =>
    cases hsends
    cases sent <;> exact ⟨rfl, rfl⟩
  | replace role reopen found =>
    cases hsends
    cases sent <;> exact ⟨rfl, rfl⟩
  | spawn handle join => cases hsends
  | cancel_pending_spawn => cases hsends
  | take_terminal actor cause => cases hsends

/-- An actor stays as it is through every call that is not about it. -/
theorem answer_stays {h : History H J} {a : RetiredActor H J} (howned : h.fleet.owned = some a)
    {op : FleetOp H J} (hterminal : ∀ cause, op ≠ .take_terminal a.actor cause)
    (hsends : h.fleet.state = .live a → sends op = none) :
    (h.answer op).2.state = h.fleet.state := by
  obtain ⟨⟨state, pending⟩, issued, made, returned⟩ := h
  cases state with
  | idle => cases howned
  | live b =>
    cases howned
    cases op with
    | spawn handle join => rfl
    | begin_close sent => cases hsends rfl
    | replace role reopen sent => cases hsends rfl
    | cancel_pending_spawn => rfl
    | take_terminal actor cause =>
      have hne : ¬ a.actor = actor := fun heq => hterminal cause (by rw [heq])
      simp [answer, BrowseFleet.take_terminal, hne]
  | draining b =>
    cases howned
    cases op with
    | spawn handle join => rfl
    | begin_close sent => rfl
    | replace role reopen sent => rfl
    | cancel_pending_spawn => rfl
    | take_terminal actor cause =>
      have hne : ¬ a.actor = actor := fun heq => hterminal cause (by rw [heq])
      simp [answer, BrowseFleet.take_terminal, hne]

/-- A replacement that gives nobody back leaves its wish. -/
theorem answer_replace (h : History H J) (role : BrowseRole) (reopen : Option Int) (sent : Bool)
    (hretired : (h.answer (.replace role reopen sent)).1.retired = none) :
    (h.answer (.replace role reopen sent)).2.pending = some ⟨role, reopen⟩ := by
  obtain ⟨⟨state, pending⟩, issued, made, returned⟩ := h
  cases state with
  | idle => rfl
  | live a =>
    cases sent with
    | false => cases hretired
    | true => rfl
  | draining a => rfl

/-- What was made is what was given back and then what is owned. -/
structure Accounted (h : History H J) : Prop where
  made_eq : h.made = h.returned ++ h.fleet.owned.toList
  issued : ∀ a ∈ h.made, a.actor ≤ h.issued
  distinct : (h.made.map RetiredActor.actor).Nodup

theorem accounted_start : (start : History H J).Accounted :=
  ⟨rfl, fun _ h => absurd h List.not_mem_nil, List.nodup_nil⟩

/-- **One call keeps the account.** -/
theorem Accounted.step {h : History H J} (hh : h.Accounted) (op : FleetOp H J) :
    (h.step op).Accounted := by
  obtain ⟨hmade, hissued, hdistinct⟩ := hh
  rcases answer_cases h op with ⟨hm, hr, ho⟩ | ⟨a, ha, hactor, ho, ho'⟩ | ⟨a, ha, ho, ho', -⟩
  · refine ⟨?_, ?_, ?_⟩
    · simp only [History.step, hm, hr, ho, Option.toList_none, List.append_nil]
      exact hmade
    · simpa only [History.step, hm, Option.toList_none, List.append_nil, List.length_nil,
        Nat.add_zero] using hissued
    · simpa only [History.step, hm, Option.toList_none, List.append_nil] using hdistinct
  · have hnew : ∀ b ∈ h.made, b.actor ≠ a.actor := by
      intro b hb
      have hle := hissued b hb
      omega
    refine ⟨?_, ?_, ?_⟩
    · simp only [History.step, ha, ho', Option.toList_none, Option.toList_some, List.append_nil]
      rw [hmade, ho, Option.toList_none, List.append_nil]
    · intro b hb
      simp only [History.step, ha, Option.toList_some, List.mem_append,
        List.mem_singleton] at hb
      simp only [History.step, ha, Option.toList_some, List.length_singleton]
      rcases hb with hb | rfl
      · have hle := hissued b hb
        omega
      · omega
    · simp only [History.step, ha, Option.toList_some, List.map_append, List.map_cons,
        List.map_nil]
      refine List.Nodup.append hdistinct (List.nodup_singleton _) ?_
      intro x hx hx'
      obtain ⟨b, hb, rfl⟩ := List.mem_map.1 hx
      exact hnew b hb (List.mem_singleton.1 hx')
  · refine ⟨?_, ?_, ?_⟩
    · simp only [History.step, ha, ho', Option.toList_none, Option.toList_some, List.append_nil]
      rw [hmade, ho, Option.toList_some]
    · simpa only [History.step, ha, Option.toList_none, List.append_nil, List.length_nil,
        Nat.add_zero] using hissued
    · simpa only [History.step, ha, Option.toList_none, List.append_nil] using hdistinct

theorem accounted_run (ops : List (FleetOp H J)) : (run ops).Accounted := by
  suffices hfold : ∀ (ops : List (FleetOp H J)) (h : History H J), h.Accounted →
      (ops.foldl History.step h).Accounted from hfold ops start accounted_start
  intro ops
  induction ops with
  | nil => exact fun h hh => hh
  | cons op ops ih => exact fun h hh => ih (h.step op) (hh.step op)

/-- What a fleet's owner may rely on after the calls `ops`, and in the call `op` that follows. -/
structure OwnsOne (h : History H J) (op : FleetOp H J) : Prop where
  /-- every actor made was given back once, in the order they were made, but for the one still
      live or draining -/
  account : h.made = h.returned ++ h.fleet.owned.toList
  distinct : (h.made.map RetiredActor.actor).Nodup
  /-- a successor is made when everything made before has been given back -/
  successor : (h.answer op).1.made ≠ none → h.made = h.returned
  /-- only the owned actor is given back, and then it is owned no more -/
  given : ∀ a, (h.answer op).1.retired = some a →
    h.fleet.owned = some a ∧ (h.answer op).2.owned = none ∧ a ∉ h.returned
  /-- an idle fleet makes the actor it is asked for -/
  spawns : ∀ handle join, op = .spawn handle join → h.fleet.owned = none →
    h.answer op = (⟨some ⟨h.issued + 1, handle, join⟩, none⟩,
      { h.fleet with state := .live ⟨h.issued + 1, handle, join⟩ })
  /-- the terminal of the owned actor gives back its handle and its join handle -/
  terminal : ∀ a cause, op = .take_terminal a.actor cause → h.fleet.owned = some a →
    h.answer op = (⟨none, some a⟩, ⟨.idle, cause.leaves h.fleet.pending⟩)
  /-- a close or a replacement that finds nobody gives the live actor back; one that is sent
      leaves it draining -/
  closes : ∀ a sent, h.fleet.state = .live a → sends op = some sent →
    (h.answer op).1.retired = (if sent then none else some a) ∧
      (h.answer op).2.state = (if sent then .draining a else .idle)
  /-- and nothing else moves it -/
  stays : ∀ a, h.fleet.owned = some a → (∀ cause, op ≠ .take_terminal a.actor cause) →
    (h.fleet.state = .live a → sends op = none) → (h.answer op).2.state = h.fleet.state
  /-- a replacement that gives nobody back leaves its wish -/
  wished : ∀ role reopen sent, op = .replace role reopen sent → (h.answer op).1.retired = none →
    (h.answer op).2.pending = some ⟨role, reopen⟩
  /-- no wish survives a panic or a close that found nobody -/
  wish : ∀ a, (h.answer op).1.retired = some a → diedBadly op = true →
    (h.answer op).2.pending = none
  /-- a terminal that is late, repeated or unknown changes nothing -/
  late : ∀ actor cause, op = .take_terminal actor cause →
    (∀ a, h.fleet.owned = some a → a.actor ≠ actor) → h.step op = h

/-- **The fleet owns at most one actor**, after every sequence of calls and whatever the next call
    is. -/
theorem fleet_owns_one (ops : List (FleetOp H J)) (op : FleetOp H J) : OwnsOne (run ops) op := by
  obtain ⟨hmade, _, hdistinct⟩ := accounted_run ops
  generalize run ops = h at hmade hdistinct
  refine
    { account := hmade
      distinct := hdistinct
      successor := ?_
      given := ?_
      spawns := ?_
      terminal := ?_
      closes := fun a sent hlive hsends => answer_sends hlive hsends
      stays := fun a howned hterminal hsends => answer_stays howned hterminal hsends
      wished := ?_
      wish := ?_
      late := ?_ }
  · intro hsome
    rcases answer_cases h op with ⟨hm, -⟩ | ⟨a, -, -, ho, -⟩ | ⟨a, ha, -⟩
    · exact absurd hm hsome
    · rw [hmade, ho, Option.toList_none, List.append_nil]
    · rw [ha] at hsome
      exact absurd rfl hsome
  · intro a hretired
    rcases answer_cases h op with ⟨-, hr, -⟩ | ⟨b, hb, -⟩ | ⟨b, hb, ho, ho', -⟩
    · rw [hr] at hretired
      cases hretired
    · rw [hb] at hretired
      cases hretired
    · rw [hb] at hretired
      cases hretired
      refine ⟨ho, ho', fun hmem => ?_⟩
      rw [hmade, ho, Option.toList_some, List.map_append, List.nodup_append] at hdistinct
      exact hdistinct.2.2 _ (List.mem_map_of_mem hmem) _
        (List.mem_map_of_mem (List.mem_singleton_self a)) rfl
  · rintro handle join rfl hidle
    exact answer_spawn hidle handle join
  · rintro a cause rfl howned
    exact answer_terminal howned cause
  · rintro role reopen sent rfl
    exact h.answer_replace role reopen sent
  · intro a hretired hbad
    rcases answer_cases h op with ⟨-, hr, -⟩ | ⟨b, hb, -⟩ | ⟨b, -, -, -, hpending⟩
    · rw [hr] at hretired
      cases hretired
    · rw [hb] at hretired
      cases hretired
    · exact hpending hbad
  · rintro actor cause rfl hother
    rcases BrowseFleet.take_terminal_cases h.fleet actor cause with ⟨heq, -⟩ | ⟨a, ha, hactor, -⟩
    · simp only [History.step, answer, heq, Option.toList_none, List.append_nil, List.length_nil,
        Nat.add_zero]
    · exact absurd hactor (hother a ha)

end History

end Fleet

end Browse

end DedupCommando
