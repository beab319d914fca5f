import DedupCommando.Lib.OrdMap
import DedupCommando.Browse.Requests

/-!
# The settlement ledger

* `MarkTicket` — a mark request that is owed a settlement; its halves agree by construction.
* `Inflight` — the live tickets, the lock of every path they name, the one long operation.
* `registerMarks`, `registerLong`, `settle`, `drain` — the operations.
* `Locked` — the locks are the disjoint union of the paths of the tickets; every operation
  preserves it, and settling a ticket right after its registration restores the ledger.
* `Settles` — a settlement gives back what is owed to the request id, with its locks, and no more.
-/

set_option autoImplicit false

namespace DedupCommando

namespace Browse

/-- What two equal `PathBuf`s share. -/
abbrev PathPlace := List (ℕ ×ₗ Bytes)

/-- `SendRefusal` -/
inductive SendRefusal where
  | duplicatePath (path : Bytes)
  | beforeImageMismatch (path : Bytes)
  | requestAlreadyLive
  | pathAlreadyLive (path : Bytes)
  | longOperationLive
  | closing
  | disconnected
  | requiresTicket
  | shutdownReserved

/-! ## Tickets -/

/-- One in-flight mark mutation: its exact path set, and the durable mark of each before it. -/
structure MarkTicket where
  act : Activation
  req : RequestId
  paths : List Bytes
  before : List (Bytes × Option MarkIntent)
  nodup : (paths.map pathOrder).Nodup
  image : (before.map fun e => pathOrder e.1).Perm (paths.map pathOrder)

/-- The unvalidated inputs of a mark send. -/
structure RejectedMarkInputs where
  act : Activation
  req : RequestId
  paths : List Bytes
  before : List (Bytes × Option MarkIntent)

/-- A refused mark send, with everything the caller supplied. -/
inductive RefusedMarkSend where
  | invalid (reason : SendRefusal) (inputs : RejectedMarkInputs)
  | refused (reason : SendRefusal) (ticket : MarkTicket)

/-- The first path that was seen before. -/
def firstRepeat (seen : List PathPlace) : List Bytes → Option Bytes
  | [] => none
  | path :: paths =>
    if pathOrder path ∈ seen then some path else firstRepeat (pathOrder path :: seen) paths

theorem firstRepeat_eq_none {paths : List Bytes} {seen : List PathPlace} :
    firstRepeat seen paths = none ↔
      (paths.map pathOrder).Nodup ∧ ∀ path ∈ paths, pathOrder path ∉ seen := by
  induction paths generalizing seen with
  | nil => simp [firstRepeat]
  | cons path paths ih =>
    unfold firstRepeat
    split
    · rename_i h
      simp [h]
    · rename_i h
      rw [ih, List.map_cons, List.nodup_cons, List.forall_mem_cons]
      constructor
      · rintro ⟨hnodup, hall⟩
        refine ⟨⟨?_, hnodup⟩, h, fun p hp hs => hall p hp (List.mem_cons_of_mem _ hs)⟩
        intro hmem
        obtain ⟨p, hp, heq⟩ := List.mem_map.1 hmem
        exact hall p hp (heq ▸ List.mem_cons_self)
      · rintro ⟨⟨hmem, hnodup⟩, -, hall⟩
        refine ⟨hnodup, fun p hp hs => ?_⟩
        rcases List.mem_cons.1 hs with heq | hs
        · exact hmem (List.mem_map.2 ⟨p, hp, heq⟩)
        · exact hall p hp hs

/-- The first path one side names and the other does not. -/
def firstMissing (paths : List Bytes) (before : List (Bytes × Option MarkIntent)) : Option Bytes :=
  let imaged := before.map fun e => pathOrder e.1
  let requested := paths.map pathOrder
  (paths.find? fun path => decide (pathOrder path ∉ imaged)).or
    ((before.map Prod.fst).find? fun path => decide (pathOrder path ∉ requested))

theorem image_of_firstMissing {paths : List Bytes} {before : List (Bytes × Option MarkIntent)}
    (hpaths : firstRepeat [] paths = none) (hbefore : firstRepeat [] (before.map Prod.fst) = none)
    (h : firstMissing paths before = none) :
    (before.map fun e => pathOrder e.1).Perm (paths.map pathOrder) := by
  have hp := (firstRepeat_eq_none.1 hpaths).1
  have hb := (firstRepeat_eq_none.1 hbefore).1
  rw [List.map_map] at hb
  unfold firstMissing at h
  rw [Option.or_eq_none_iff] at h
  obtain ⟨hleft, hright⟩ := h
  rw [List.find?_eq_none] at hleft hright
  apply (List.perm_ext_iff_of_nodup hb hp).2
  intro place
  constructor
  · intro hmem
    obtain ⟨e, he, rfl⟩ := List.mem_map.1 hmem
    simpa using hright e.1 (List.mem_map.2 ⟨e, he, rfl⟩)
  · intro hmem
    obtain ⟨path, hpath, rfl⟩ := List.mem_map.1 hmem
    simpa using hleft path hpath

/-- `MarkTicket::new` -/
def MarkTicket.new (act : Activation) (req : RequestId) (paths : List Bytes)
    (before : List (Bytes × Option MarkIntent)) : Except RefusedMarkSend MarkTicket :=
  let invalid (reason : SendRefusal) : Except RefusedMarkSend MarkTicket :=
    .error (.invalid reason ⟨act, req, paths, before⟩)
  match hpaths : firstRepeat [] paths with
  | some path => invalid (.duplicatePath path)
  | none =>
    match hbefore : firstRepeat [] (before.map Prod.fst) with
    | some path => invalid (.duplicatePath path)
    | none =>
      match hmissing : firstMissing paths before with
      | some path => invalid (.beforeImageMismatch path)
      | none =>
        .ok ⟨act, req, paths, before, (firstRepeat_eq_none.1 hpaths).1,
          image_of_firstMissing hpaths hbefore hmissing⟩

/-- Nothing the caller supplied is dropped, or changed. -/
theorem MarkTicket.new_whole (act : Activation) (req : RequestId) (paths : List Bytes)
    (before : List (Bytes × Option MarkIntent)) :
    (∃ t, MarkTicket.new act req paths before = .ok t ∧ t.act = act ∧ t.req = req ∧
      t.paths = paths ∧ t.before = before) ∨
    ∃ reason, MarkTicket.new act req paths before =
      .error (.invalid reason ⟨act, req, paths, before⟩) := by
  unfold MarkTicket.new
  dsimp only
  split
  · exact .inr ⟨_, rfl⟩
  · split
    · exact .inr ⟨_, rfl⟩
    · split
      · exact .inr ⟨_, rfl⟩
      · exact .inl ⟨_, rfl, rfl, rfl, rfl, rfl⟩

/-! ## The ledger -/

/-- `LongOperation` -/
structure LongOperation where
  act : Activation
  req : RequestId
  cancel : CancelToken

/-- `InflightState` -/
structure Inflight where
  tickets : OrdMap RequestId MarkTicket
  /-- path → the request id whose live ticket owns it -/
  locks : OrdMap PathPlace RequestId
  longOp : Option LongOperation

/-- What settling one request id released. -/
inductive Settled where
  | marks (ticket : MarkTicket)
  | long (op : LongOperation)

namespace Inflight

def empty : Inflight := ⟨.empty, .empty, none⟩

/-- The paths of a ticket, locked for it. -/
def lockAll (t : MarkTicket) (locks : OrdMap PathPlace RequestId) : OrdMap PathPlace RequestId :=
  t.paths.foldl (fun locks path => locks.insert (pathOrder path) t.req) locks

/-- `register_marks` -/
def registerMarks (s : Inflight) (t : MarkTicket) : Except RefusedMarkSend Inflight :=
  if s.tickets.contains t.req ∨ s.longOp.any fun long => decide (long.req = t.req) then
    .error (.refused .requestAlreadyLive t)
  else
    match t.paths.find? fun path => s.locks.contains (pathOrder path) with
    | some path => .error (.refused (.pathAlreadyLive path) t)
    | none => .ok { s with locks := lockAll t s.locks, tickets := s.tickets.insert t.req t }

/-- `register_long` -/
def registerLong (s : Inflight) (long : LongOperation) : Except SendRefusal Inflight :=
  if s.longOp.isSome then .error .longOperationLive
  else if s.tickets.contains long.req then .error .requestAlreadyLive
  else .ok { s with longOp := some long }

/-- `settle` -/
def settle (s : Inflight) (req : RequestId) : Option Settled × Inflight :=
  match s.tickets.get? req with
  | some ticket =>
    (some (.marks ticket),
      { s with
        tickets := s.tickets.erase req
        locks := s.locks.filter fun e => decide (e.2 ≠ req) })
  | none =>
    match s.longOp with
    | some long => if long.req = req then (some (.long long), { s with longOp := none }) else (none, s)
    | none => (none, s)

/-- `drain` -/
def drain (s : Inflight) : (List MarkTicket × Option LongOperation) × Inflight :=
  ((s.tickets.values, s.longOp), empty)

/-! ## The locks are the paths of the live tickets -/

/-- Every lock is a path of the live ticket that owns it, and every such path is locked for it. -/
structure Locked (s : Inflight) : Prop where
  owner : ∀ req t, s.tickets.get? req = some t → t.req = req
  locks : ∀ place req, s.locks.get? place = some req ↔
    ∃ t, s.tickets.get? req = some t ∧ place ∈ t.paths.map pathOrder
  long : ∀ long, s.longOp = some long → s.tickets.get? long.req = none

theorem get?_lockAll (t : MarkTicket) (locks : OrdMap PathPlace RequestId) (place : PathPlace) :
    (lockAll t locks).get? place =
      if place ∈ t.paths.map pathOrder then some t.req else locks.get? place := by
  unfold lockAll
  induction t.paths generalizing locks with
  | nil => rfl
  | cons path paths ih =>
    rw [List.foldl_cons, ih, OrdMap.get?_insert, List.map_cons]
    by_cases hmem : place ∈ paths.map pathOrder
    · rw [if_pos hmem, if_pos (List.mem_cons_of_mem _ hmem)]
    · rw [if_neg hmem]
      by_cases heq : place = pathOrder path
      · rw [if_pos heq, if_pos (heq ▸ List.mem_cons_self)]
      · rw [if_neg heq, if_neg]
        exact fun h => (List.mem_cons.1 h).elim heq hmem

theorem empty_locked : empty.Locked := by
  refine ⟨fun _ _ h => ?_, fun _ _ => ⟨fun h => ?_, ?_⟩, fun _ h => ?_⟩
  · cases h
  · cases h
  · rintro ⟨t, h, -⟩
    cases h
  · cases h

/-- What a registration found, and what it left. -/
theorem registerMarks_ok {s s' : Inflight} {t : MarkTicket} (h : s.registerMarks t = .ok s') :
    s.tickets.get? t.req = none ∧ (∀ long, s.longOp = some long → long.req ≠ t.req) ∧
      (∀ place ∈ t.paths.map pathOrder, s.locks.get? place = none) ∧
      s' = { s with locks := lockAll t s.locks, tickets := s.tickets.insert t.req t } := by
  unfold registerMarks at h
  split at h
  · cases h
  rename_i hfree
  split at h
  · cases h
  rename_i hpaths
  cases h
  obtain ⟨hticket, hlong⟩ := not_or.1 hfree
  refine ⟨?_, ?_, ?_, rfl⟩
  · simpa [OrdMap.contains] using hticket
  · intro long hsome heq
    apply hlong
    rw [hsome]
    simpa using heq
  · intro place hplace
    obtain ⟨path, hpath, rfl⟩ := List.mem_map.1 hplace
    have hnone := List.find?_eq_none.1 hpaths path hpath
    simpa [OrdMap.contains] using hnone

/-- A refused registration gives the ticket back whole. -/
theorem registerMarks_error {s : Inflight} {t : MarkTicket} {r : RefusedMarkSend}
    (h : s.registerMarks t = .error r) : ∃ reason, r = .refused reason t := by
  unfold registerMarks at h
  split at h
  · exact ⟨_, (Except.error.inj h).symm⟩
  split at h
  · exact ⟨_, (Except.error.inj h).symm⟩
  · cases h

theorem Locked.registerMarks {s s' : Inflight} (hs : s.Locked) {t : MarkTicket}
    (h : s.registerMarks t = .ok s') : s'.Locked := by
  obtain ⟨hticket, hlong, hpaths, rfl⟩ := registerMarks_ok h
  refine ⟨?_, ?_, ?_⟩
  · intro req t' ht'
    rw [OrdMap.get?_insert] at ht'
    split at ht'
    · cases ht'
      rename_i heq
      exact heq.symm
    · exact hs.owner req t' ht'
  · intro place req
    show (lockAll t s.locks).get? place = some req ↔
      ∃ t', (s.tickets.insert t.req t).get? req = some t' ∧ place ∈ t'.paths.map pathOrder
    rw [get?_lockAll, OrdMap.get?_insert]
    by_cases hmem : place ∈ t.paths.map pathOrder
    · rw [if_pos hmem]
      constructor
      · intro heq
        cases heq
        exact ⟨t, if_pos rfl, hmem⟩
      · rintro ⟨t', ht', hmem'⟩
        by_cases hreq : req = t.req
        · rw [hreq]
        · rw [if_neg hreq] at ht'
          have hlocked := (hs.locks place req).2 ⟨t', ht', hmem'⟩
          rw [hpaths place hmem] at hlocked
          cases hlocked
    · rw [if_neg hmem, hs.locks]
      by_cases hreq : req = t.req
      · rw [if_pos hreq, hreq, hticket]
        constructor
        · rintro ⟨t', ht', -⟩
          cases ht'
        · rintro ⟨t', ht', hmem'⟩
          cases ht'
          exact absurd hmem' hmem
      · rw [if_neg hreq]
  · intro long hsome
    show (s.tickets.insert t.req t).get? long.req = none
    rw [OrdMap.get?_insert, if_neg (hlong long hsome)]
    exact hs.long long hsome

/-- **The rollback restores the ledger**: settling the id of a ticket that was just registered. -/
theorem settle_registerMarks {s s' : Inflight} (hs : s.Locked) {t : MarkTicket}
    (h : s.registerMarks t = .ok s') : s'.settle t.req = (some (.marks t), s) := by
  obtain ⟨hticket, -, hpaths, rfl⟩ := registerMarks_ok h
  unfold settle
  simp only [OrdMap.get?_insert_self]
  have htickets : (s.tickets.insert t.req t).erase t.req = s.tickets := by
    apply OrdMap.ext_get?
    intro req
    rw [OrdMap.get?_erase, OrdMap.get?_insert]
    split
    · rename_i heq
      rw [heq, hticket]
    · rfl
  have hlocks : (lockAll t s.locks).filter (fun e => decide (e.2 ≠ t.req)) = s.locks := by
    apply OrdMap.ext_get?
    intro place
    apply Option.ext
    intro req
    rw [OrdMap.mem_filter, get?_lockAll]
    by_cases hmem : place ∈ t.paths.map pathOrder
    · rw [if_pos hmem, hpaths place hmem]
      constructor
      · rintro ⟨heq, hne⟩
        cases heq
        simp at hne
      · intro heq
        cases heq
    · rw [if_neg hmem]
      constructor
      · exact And.left
      · intro hreq
        refine ⟨hreq, ?_⟩
        obtain ⟨t', ht', -⟩ := (hs.locks place req).1 hreq
        have hne : req ≠ t.req := by
          intro heq
          rw [heq, hticket] at ht'
          cases ht'
        simpa using hne
  rw [htickets, hlocks]

theorem Locked.settle {s : Inflight} (hs : s.Locked) (req : RequestId) : (s.settle req).2.Locked := by
  unfold Inflight.settle
  cases hticket : s.tickets.get? req with
  | none =>
    cases hlong : s.longOp with
    | none => exact hs
    | some long =>
      dsimp only
      split
      · exact ⟨hs.owner, hs.locks, fun _ h => by cases h⟩
      · exact hs
  | some ticket =>
    refine ⟨?_, ?_, ?_⟩
    · intro req' t' ht'
      rw [OrdMap.get?_erase] at ht'
      split at ht'
      · cases ht'
      · exact hs.owner req' t' ht'
    · intro place req'
      show (s.locks.filter fun e => decide (e.2 ≠ req)).get? place = some req' ↔
        ∃ t', (s.tickets.erase req).get? req' = some t' ∧ place ∈ t'.paths.map pathOrder
      rw [OrdMap.mem_filter, hs.locks, OrdMap.get?_erase]
      by_cases hreq : req' = req
      · simp [hreq]
      · simp [hreq]
    · intro long hsome
      show (s.tickets.erase req).get? long.req = none
      rw [OrdMap.get?_erase]
      split
      · rfl
      · exact hs.long long hsome

/-- What settling one request id gives back and leaves, by what the ledger owes it. -/
inductive Settles (s : Inflight) (req : RequestId) : Option Settled → Inflight → Prop where
  /-- a live ticket: it is handed back, and it goes with the locks of its paths alone -/
  | marks {s' : Inflight} (t : MarkTicket) (live : s.tickets.get? req = some t)
      (tickets : ∀ other, s'.tickets.get? other =
        if other = req then none else s.tickets.get? other)
      (locks : ∀ place, s'.locks.get? place =
        if place ∈ t.paths.map pathOrder then none else s.locks.get? place)
      (long : s'.longOp = s.longOp) : Settles s req (some (.marks t)) s'
  /-- the long operation: it is handed back with its token -/
  | long (op : LongOperation) (live : s.longOp = some op) (own : op.req = req)
      (ticket : s.tickets.get? req = none) :
      Settles s req (some (.long op)) { s with longOp := none }
  | nothing (ticket : s.tickets.get? req = none)
      (long : ∀ op, s.longOp = some op → op.req ≠ req) : Settles s req none s

/-- **A settlement gives back what the ledger owes the request id, and frees its locks.** -/
theorem settle_settles {s : Inflight} (hs : s.Locked) (req : RequestId) :
    s.Settles req (s.settle req).1 (s.settle req).2 := by
  unfold Inflight.settle
  cases hticket : s.tickets.get? req with
  | none =>
    cases hlong : s.longOp with
    | none => exact .nothing hticket fun op h => by rw [hlong] at h; cases h
    | some long =>
      dsimp only
      split
      · rename_i hreq
        exact .long long hlong hreq hticket
      · rename_i hreq
        refine .nothing hticket fun op h => ?_
        rw [hlong] at h
        cases h
        exact hreq
  | some t =>
    refine .marks t hticket (fun other => OrdMap.get?_erase ..) (fun place => ?_) rfl
    apply Option.ext
    intro owner
    rw [OrdMap.mem_filter]
    by_cases hmem : place ∈ t.paths.map pathOrder
    · -- its lock is the ticket's own, so the filter drops it
      rw [if_pos hmem, (hs.locks place req).2 ⟨t, hticket, hmem⟩]
      constructor
      · rintro ⟨heq, hne⟩
        cases heq
        simp at hne
      · intro heq
        cases heq
    · rw [if_neg hmem]
      refine ⟨And.left, fun hlock => ⟨hlock, ?_⟩⟩
      have hne : owner ≠ req := by
        rintro rfl
        obtain ⟨t', ht', hmem'⟩ := (hs.locks place owner).1 hlock
        rw [hticket] at ht'
        cases ht'
        exact hmem hmem'
      simpa using hne

theorem Settles.held {s s' : Inflight} {req other : RequestId} {out : Option Settled}
    (h : s.Settles req out s') {t : MarkTicket} (hlive : s.tickets.get? other = some t) :
    s'.tickets.get? other = if req = other then none else some t := by
  by_cases heq : req = other
  · subst heq
    rw [if_pos rfl]
    cases h with
    | marks t' live tickets locks long => rw [tickets, if_pos rfl]
    | long op live own ticket => exact ticket
    | nothing ticket long => exact ticket
  · rw [if_neg heq]
    cases h with
    | marks t' live tickets locks long => rw [tickets, if_neg (Ne.symm heq), hlive]
    | long op live own ticket => exact hlive
    | nothing ticket long => exact hlive

theorem Settles.heldLong {s s' : Inflight} (hs : s.Locked) {req : RequestId} {out : Option Settled}
    (h : s.Settles req out s') {op : LongOperation} (hlive : s.longOp = some op) :
    s'.longOp = if req = op.req then none else some op := by
  cases h with
  | marks t live tickets locks long =>
    have hne : req ≠ op.req := by
      rintro rfl
      rw [hs.long op hlive] at live
      cases live
    rw [if_neg hne, long, hlive]
  | long op' live own ticket =>
    rw [hlive] at live
    cases live
    rw [if_pos own.symm]
  | nothing ticket long => rw [if_neg (Ne.symm (long op hlive)), hlive]

theorem registerLong_ok {s s' : Inflight} {long : LongOperation}
    (h : s.registerLong long = .ok s') :
    s.longOp = none ∧ s.tickets.get? long.req = none ∧ s' = { s with longOp := some long } := by
  unfold registerLong at h
  split at h
  · cases h
  rename_i hnone
  split at h
  · cases h
  rename_i hticket
  cases h
  refine ⟨by simpa using hnone, by simpa [OrdMap.contains] using hticket, rfl⟩

theorem Locked.registerLong {s s' : Inflight} (hs : s.Locked) {long : LongOperation}
    (h : s.registerLong long = .ok s') : s'.Locked := by
  obtain ⟨-, hticket, rfl⟩ := registerLong_ok h
  refine ⟨hs.owner, hs.locks, fun _ hsome => ?_⟩
  cases hsome
  exact hticket

theorem settle_registerLong {s s' : Inflight} {long : LongOperation}
    (h : s.registerLong long = .ok s') : s'.settle long.req = (some (.long long), s) := by
  obtain ⟨hnone, hticket, rfl⟩ := registerLong_ok h
  unfold settle
  simp only [hticket, if_true]
  rw [← hnone]

/-- **The locks are the disjoint union of the paths of the live tickets.** -/
theorem Locked.locks_perm {s : Inflight} (hs : s.Locked) :
    s.locks.keys.Perm (s.tickets.values.flatMap fun t => t.paths.map pathOrder) := by
  have hdisjoint : (s.tickets.values.flatMap fun t => t.paths.map pathOrder).Nodup := by
    rw [List.nodup_flatMap]
    refine ⟨fun t _ => t.nodup, ?_⟩
    unfold OrdMap.values
    rw [List.pairwise_map]
    refine s.tickets.sorted.imp_of_mem ?_
    rintro ⟨req, t⟩ ⟨req', t'⟩ ht ht' hlt
    show (t.paths.map pathOrder).Disjoint (t'.paths.map pathOrder)
    intro place hp hp'
    have hlock := (hs.locks place req).2 ⟨t, OrdMap.mem_entries.1 ht, hp⟩
    have hlock' := (hs.locks place req').2 ⟨t', OrdMap.mem_entries.1 ht', hp'⟩
    rw [hlock] at hlock'
    cases hlock'
    exact lt_irrefl _ hlt
  refine (List.perm_ext_iff_of_nodup s.locks.keys_nodup hdisjoint).2 ?_
  intro place
  rw [← OrdMap.contains_iff, OrdMap.contains, Option.isSome_iff_exists, List.mem_flatMap]
  constructor
  · rintro ⟨req, hreq⟩
    obtain ⟨t, ht, hmem⟩ := (hs.locks place req).1 hreq
    exact ⟨t, OrdMap.mem_values.2 ⟨req, ht⟩, hmem⟩
  · rintro ⟨t, ht, hmem⟩
    obtain ⟨req, hreq⟩ := OrdMap.mem_values.1 ht
    exact ⟨req, (hs.locks place req).2 ⟨t, hreq, hmem⟩⟩

end Inflight

end Browse

end DedupCommando
