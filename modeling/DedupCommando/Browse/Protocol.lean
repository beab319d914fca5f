import DedupCommando.Browse.Contract
import DedupCommando.Browse.Handle

/-!
# The protocol between the handles and the actor

* `System`, `Op`, `System.step` — any number of handle clones, the actor's thread, and the sink
  its events reach; one step is one gated operation of a handle or one move of the actor.
* `Moves` — what an operation does to the ledger, in tickets that went in and came out.
* `Effect`, `step_effect` — everything a step can do, once for all.
* `step_held` — what is live stays in the ledger until its own settlement or a drain takes it.
-/

set_option autoImplicit false

namespace DedupCommando

namespace Browse

/-- Where the actor's thread is. -/
inductive Phase where
  | waiting
  /-- received, with the closing flag as it was read -/
  | holding (request : BrowseRequest) (closing : Bool)
  | leaving
  /-- the receiver is gone, `Closed` is not out yet -/
  | dropped
  | done

/-- What the sink sees. -/
inductive SinkEvent (δ : Type) where
  | reply (e : BrowseEvent δ)
  | closed

/-- The handles, the actor and the sink; the last six fields are what happened so far. -/
structure System (σ δ : Type) where
  handles : Nat
  bus : Bus
  phase : Phase
  actor : Actor σ δ
  sink : List (SinkEvent δ)
  /-- the requests a handle was told are accepted, and the ones that were dispatched -/
  accepted : List BrowseRequest
  answered : List BrowseRequest
  /-- the tickets that accepted sends handed over, and the ones a settlement or a drain gave back -/
  handed : List MarkTicket
  taken : List MarkTicket
  handedLong : List LongOperation
  takenLong : List LongOperation

/-- One operation: of a handle, of the world behind the store, or of the actor's thread. -/
inductive Op (σ : Type) where
  | cloneHandle
  | dropHandle
  | send (request : BrowseRequest)
  | sendSetMarks (act : Activation) (req : RequestId) (entries : List MarkedEntry)
      (before : List (Bytes × Option MarkIntent))
  | sendClearMarks (act : Activation) (req : RequestId)
  | sendAutoSelect (act : Activation) (req : RequestId) (cancel : CancelToken)
  | settle (req : RequestId)
  | drain
  | beginClose
  | elsewhere (store : σ)
  | recv
  | answer
  | hangUp
  | dropReceiver
  | emitClosed

/-- The operations of the actor's own thread. -/
def Op.ofActor {σ : Type} : Op σ → Bool
  | recv | answer | hangUp | dropReceiver | emitClosed => true
  | _ => false

/-- The operations that take what the ledger holds for a request id. -/
def Op.takes {σ : Type} (req : RequestId) : Op σ → Bool
  | settle settled => decide (settled = req)
  | drain => true
  | _ => false

def BrowseRequest.isShutdown : BrowseRequest → Bool
  | .shutdown => true
  | _ => false

/-- The ticket a mark send builds, if it builds one. -/
def builtTicket (act : Activation) (req : RequestId) (paths : List Bytes)
    (before : List (Bytes × Option MarkIntent)) : List MarkTicket :=
  match MarkTicket.new act req paths before with
  | .ok ticket => [ticket]
  | .error _ => []

namespace System

variable {σ δ : Type} (B : Backend σ δ)

/-- One handle, and an actor that waits. -/
def start (role : BrowseRole) (store : σ) : System σ δ :=
  { handles := 1
    bus := .fresh
    phase := .waiting
    actor := .spawn role store
    sink := []
    accepted := []
    answered := []
    handed := []
    taken := []
    handedLong := []
    takenLong := [] }

/-- An operation of a handle needs a handle. -/
def withHandle (s : System σ δ) (s' : System σ δ) : Option (System σ δ) :=
  if s.handles = 0 then none else some s'

/-- After a send: the request and what it handed over, if it was accepted. -/
def afterSend {ε : Type} (s : System σ δ) (sent : Except ε Unit × Bus) (request : BrowseRequest)
    (tickets : List MarkTicket) (longs : List LongOperation) : System σ δ :=
  match sent with
  | (.ok (), bus) =>
    { s with
      bus := bus
      accepted := s.accepted ++ [request]
      handed := s.handed ++ tickets
      handedLong := s.handedLong ++ longs }
  | (.error _, bus) => { s with bus := bus }

def afterSettle (s : System σ δ) : Option Settled × Bus → System σ δ
  | (some (.marks ticket), bus) => { s with bus := bus, taken := s.taken ++ [ticket] }
  | (some (.long op), bus) => { s with bus := bus, takenLong := s.takenLong ++ [op] }
  | (none, bus) => { s with bus := bus }

def afterDrain (s : System σ δ) : (List MarkTicket × Option LongOperation) × Bus → System σ δ
  | ((tickets, long), bus) =>
    { s with bus := bus, taken := s.taken ++ tickets, takenLong := s.takenLong ++ long.toList }

/-- The head of the queue is taken off it. -/
def received (s : System σ δ) (request : BrowseRequest) (rest : List BrowseRequest) :
    System σ δ :=
  { s with
    bus := { s.bus with queue := rest }
    phase := if request.isShutdown then .leaving else .holding request s.bus.closing }

/-- The request in hand is dispatched, and its events reach the sink. -/
def dispatched (s : System σ δ) (request : BrowseRequest) (closing : Bool) : System σ δ :=
  let actor := s.actor.dispatch B closing request
  { s with
    phase := .waiting
    actor := actor
    sink := s.sink ++
      (actor.emitted.drop s.actor.emitted.length).map fun e => SinkEvent.reply e.event
    answered := s.answered ++ [request] }

/-- One step; `none` where the operation is not possible. -/
def step (op : Op σ) (s : System σ δ) : Option (System σ δ) :=
  match op with
  | .cloneHandle => s.withHandle { s with handles := s.handles + 1 }
  | .dropHandle => s.withHandle { s with handles := s.handles - 1 }
  | .send request => s.withHandle (s.afterSend (s.bus.send request) request [] [])
  | .sendSetMarks act req entries before =>
    s.withHandle (s.afterSend (s.bus.sendSetMarks act req entries before)
      (.setMarks act req entries) (builtTicket act req (entries.map fun e => e.path) before) [])
  | .sendClearMarks act req =>
    s.withHandle (s.afterSend (s.bus.sendClearMarks act req) (.clearMarks act req)
      (builtTicket act req [] []) [])
  | .sendAutoSelect act req cancel =>
    s.withHandle (s.afterSend (s.bus.sendAutoSelect act req cancel) (.autoSelect act req cancel) []
      [⟨act, req, cancel⟩])
  | .settle req => s.withHandle (s.afterSettle (s.bus.settle req))
  | .drain => s.withHandle (s.afterDrain s.bus.drainTickets)
  | .beginClose => s.withHandle { s with bus := s.bus.beginCloseSend.2 }
  | .elsewhere store =>
    some { s with actor := { s.actor with session := { s.actor.session with store := store } } }
  | .recv =>
    match s.phase, s.bus.queue with
    | .waiting, request :: rest => some (s.received request rest)
    | _, _ => none
  | .hangUp =>
    match s.phase, s.bus.queue with
    | .waiting, [] => if s.handles = 0 then some { s with phase := .leaving } else none
    | _, _ => none
  | .answer =>
    match s.phase with
    | .holding request closing => some (s.dispatched B request closing)
    | _ => none
  | .dropReceiver =>
    match s.phase with
    | .leaving => some { s with phase := .dropped, bus := { s.bus with receiver := false, queue := [] } }
    | _ => none
  | .emitClosed =>
    match s.phase with
    | .dropped => some { s with phase := .done, sink := s.sink ++ [.closed] }
    | _ => none

/-- A state of a run. -/
inductive Reachable (role : BrowseRole) : System σ δ → Prop where
  | start (store : σ) : Reachable role (start role store)
  | step {s s' : System σ δ} (op : Op σ) (h : Reachable role s) (hs : s.step B op = some s') :
      Reachable role s'

/-- The operations in their turn. -/
def run (ops : List (Op σ)) (s : System σ δ) : Option (System σ δ) :=
  ops.foldlM (fun s op => s.step B op) s

theorem Reachable.run {role : BrowseRole} {ops : List (Op σ)} {s s' : System σ δ}
    (h : Reachable B role s) (hrun : s.run B ops = some s') : Reachable B role s' := by
  induction ops generalizing s with
  | nil =>
    cases hrun
    exact h
  | cons op ops ih =>
    obtain ⟨s₁, hstep, hrest⟩ := Option.bind_eq_some_iff.1 hrun
    exact ih (.step op h hstep) hrest

end System

/-! ## The ledger of one step -/

/-- From `i` to `i'` the tickets `tin` went in and `tout` came out, and so the long operations. -/
structure Moves (i i' : Inflight) (tin tout : List MarkTicket) (lin lout : List LongOperation) :
    Prop where
  locked : i'.Locked
  tickets : (i.tickets.values ++ tin).Perm (tout ++ i'.tickets.values)
  longs : (i.longOp.toList ++ lin).Perm (lout ++ i'.longOp.toList)

theorem Moves.still {i : Inflight} (hi : i.Locked) : Moves i i [] [] [] [] :=
  ⟨hi, by simp, by simp⟩

theorem Moves.registerMarks {i i' : Inflight} (hi : i.Locked) {t : MarkTicket}
    (h : i.registerMarks t = .ok i') : Moves i i' [t] [] [] [] := by
  refine ⟨hi.registerMarks h, ?_, ?_⟩
  · obtain ⟨hticket, -, -, rfl⟩ := Inflight.registerMarks_ok h
    have hentries := (OrdMap.entries_insert hticket t).map Prod.snd
    exact (List.perm_append_singleton t _).trans hentries.symm
  · obtain ⟨-, -, -, rfl⟩ := Inflight.registerMarks_ok h
    simp

theorem Moves.registerLong {i i' : Inflight} (hi : i.Locked) {long : LongOperation}
    (h : i.registerLong long = .ok i') : Moves i i' [] [] [long] [] := by
  refine ⟨hi.registerLong h, ?_, ?_⟩
  · obtain ⟨-, -, rfl⟩ := Inflight.registerLong_ok h
    simp
  · obtain ⟨hnone, -, rfl⟩ := Inflight.registerLong_ok h
    simp [hnone]

/-- What one settlement gives back. -/
def Settled.tickets : Option Settled → List MarkTicket
  | some (.marks ticket) => [ticket]
  | _ => []

def Settled.longs : Option Settled → List LongOperation
  | some (.long op) => [op]
  | _ => []

theorem Moves.settle {i : Inflight} (hi : i.Locked) (req : RequestId) :
    Moves i (i.settle req).2 [] (Settled.tickets (i.settle req).1) []
      (Settled.longs (i.settle req).1) := by
  refine ⟨hi.settle req, ?_, ?_⟩
  · unfold Inflight.settle
    cases hticket : i.tickets.get? req with
    | none =>
      cases hlong : i.longOp with
      | none => simp [Settled.tickets]
      | some long =>
        dsimp only
        split <;> simp [Settled.tickets]
    | some ticket =>
      have hentries := (OrdMap.entries_erase hticket).map Prod.snd
      simpa [Settled.tickets, OrdMap.values] using hentries
  · unfold Inflight.settle
    cases hticket : i.tickets.get? req with
    | none =>
      cases hlong : i.longOp with
      | none => simp [Settled.longs, hlong]
      | some long =>
        dsimp only
        split <;> simp [Settled.longs, hlong]
    | some ticket => simp [Settled.longs]

theorem Moves.drain {i : Inflight} :
    Moves i i.drain.2 [] i.drain.1.1 [] i.drain.1.2.toList := by
  refine ⟨Inflight.empty_locked, ?_, ?_⟩
  · simp [Inflight.drain, Inflight.empty, OrdMap.values, OrdMap.empty]
  · simp [Inflight.drain, Inflight.empty]

/-! ## Everything a step can do -/

namespace System

variable {σ δ : Type} (B : Backend σ δ)

/-- One step, by what it changes. -/
inductive Effect (s : System σ δ) : System σ δ → Prop where
  | handles (n : Nat) (hpos : s.handles ≠ 0) : Effect s { s with handles := n }
  | elsewhere (store : σ) : Effect s
      { s with actor := { s.actor with session := { s.actor.session with store := store } } }
  | accepted (request : BrowseRequest) (i : Inflight) (tickets : List MarkTicket)
      (longs : List LongOperation) (hpos : s.handles ≠ 0) (hopen : s.bus.Open)
      (hrequest : request.isShutdown = false) (hmoves : Moves s.bus.inflight i tickets [] longs []) :
      Effect s
        { s with
          bus := { s.bus with inflight := i, queue := s.bus.queue ++ [request] }
          accepted := s.accepted ++ [request]
          handed := s.handed ++ tickets
          handedLong := s.handedLong ++ longs }
  | released (i : Inflight) (tickets : List MarkTicket) (longs : List LongOperation)
      (hpos : s.handles ≠ 0) (hmoves : Moves s.bus.inflight i [] tickets [] longs) :
      Effect s
        { s with
          bus := { s.bus with inflight := i }
          taken := s.taken ++ tickets
          takenLong := s.takenLong ++ longs }
  | beginClose (hpos : s.handles ≠ 0) : Effect s { s with bus := s.bus.beginCloseSend.2 }
  | received (request : BrowseRequest) (rest : List BrowseRequest) (hphase : s.phase = .waiting)
      (hqueue : s.bus.queue = request :: rest) : Effect s (s.received request rest)
  | hungUp (hphase : s.phase = .waiting) (hqueue : s.bus.queue = []) (hnone : s.handles = 0) :
      Effect s { s with phase := .leaving }
  | dispatched (request : BrowseRequest) (closing : Bool)
      (hphase : s.phase = .holding request closing) : Effect s (s.dispatched B request closing)
  | dropped (hphase : s.phase = .leaving) :
      Effect s { s with phase := .dropped, bus := { s.bus with receiver := false, queue := [] } }
  | closed (hphase : s.phase = .dropped) :
      Effect s { s with phase := .done, sink := s.sink ++ [.closed] }

theorem withHandle_eq {s s₁ s' : System σ δ} (h : s.withHandle s₁ = some s') :
    s.handles ≠ 0 ∧ s' = s₁ := by
  unfold withHandle at h
  split at h
  · cases h
  · rename_i hpos
    exact ⟨hpos, (Option.some.inj h).symm⟩

variable {B}

/-- A refused send changes nothing. -/
theorem Effect.refused {s : System σ δ} (hpos : s.handles ≠ 0) : Effect B s s :=
  Effect.handles s.handles hpos

/-- The ticket sends: accepted with the ticket they built, or refused. -/
theorem sendTicket_effect {s : System σ δ} (hlocked : s.bus.inflight.Locked)
    (hpos : s.handles ≠ 0) (act : Activation) (req : RequestId) (paths : List Bytes)
    (before : List (Bytes × Option MarkIntent)) (request : BrowseRequest)
    (hrequest : request.isShutdown = false) :
    Effect B s (s.afterSend
      (match MarkTicket.new act req paths before with
        | .error refused => (.error refused, s.bus)
        | .ok ticket => s.bus.sendTicket ticket request) request
      (builtTicket act req paths before) []) := by
  unfold builtTicket
  cases MarkTicket.new act req paths before with
  | error refused => exact Effect.refused hpos
  | ok ticket =>
    dsimp only
    rcases Bus.sendTicket_spec hlocked ticket request with ⟨i, hopen, hregister, h⟩ | ⟨reason, h⟩
    · rw [h]
      exact Effect.accepted request i [ticket] [] hpos hopen hrequest (.registerMarks hlocked hregister)
    · rw [h]
      exact Effect.refused hpos

/-- **Everything a step can do.** -/
theorem step_effect {s s' : System σ δ} (hlocked : s.bus.inflight.Locked) {op : Op σ}
    (h : s.step B op = some s') : Effect B s s' := by
  cases op with
  | cloneHandle =>
    obtain ⟨hpos, rfl⟩ := withHandle_eq h
    exact .handles _ hpos
  | dropHandle =>
    obtain ⟨hpos, rfl⟩ := withHandle_eq h
    exact .handles _ hpos
  | send request =>
    obtain ⟨hpos, rfl⟩ := withHandle_eq h
    rcases Bus.send_spec request s.bus with ⟨hne, hopen, hsent⟩ | ⟨reason, hsent⟩
    · rw [hsent]
      have hrequest : request.isShutdown = false := by
        cases request <;> first | rfl | exact absurd rfl hne
      have heffect := Effect.accepted (B := B) request s.bus.inflight [] [] hpos hopen hrequest
        (.still hlocked)
      exact heffect
    · rw [hsent]
      exact .refused hpos
  | sendSetMarks act req entries before =>
    obtain ⟨hpos, rfl⟩ := withHandle_eq h
    exact sendTicket_effect hlocked hpos act req _ before _ rfl
  | sendClearMarks act req =>
    obtain ⟨hpos, rfl⟩ := withHandle_eq h
    exact sendTicket_effect hlocked hpos act req [] [] _ rfl
  | sendAutoSelect act req cancel =>
    obtain ⟨hpos, rfl⟩ := withHandle_eq h
    rcases Bus.sendAutoSelect_spec s.bus act req cancel with
      ⟨i, hopen, hregister, hsent⟩ | ⟨reason, hsent⟩
    · rw [hsent]
      exact .accepted _ i [] [⟨act, req, cancel⟩] hpos hopen rfl (.registerLong hlocked hregister)
    · rw [hsent]
      exact .refused hpos
  | settle req =>
    obtain ⟨hpos, rfl⟩ := withHandle_eq h
    have hmoves := Moves.settle hlocked req
    have heffect := Effect.released (B := B) _ _ _ hpos hmoves
    unfold Bus.settle
    cases hsettle : s.bus.inflight.settle req with
    | mk settled i =>
      rw [hsettle] at heffect
      rcases settled with _ | (ticket | op)
      · simpa [Settled.tickets, Settled.longs, afterSettle] using heffect
      · simpa [Settled.tickets, Settled.longs, afterSettle] using heffect
      · simpa [Settled.tickets, Settled.longs, afterSettle] using heffect
  | drain =>
    obtain ⟨hpos, rfl⟩ := withHandle_eq h
    exact .released _ _ _ hpos .drain
  | beginClose =>
    obtain ⟨hpos, rfl⟩ := withHandle_eq h
    exact .beginClose hpos
  | elsewhere store =>
    cases h
    exact .elsewhere store
  | recv =>
    unfold step at h
    dsimp only at h
    split at h
    · rename_i request rest hphase hqueue
      cases h
      exact .received request rest hphase hqueue
    · cases h
  | hangUp =>
    unfold step at h
    dsimp only at h
    split at h
    · rename_i hphase hqueue
      split at h
      · rename_i hnone
        cases h
        exact .hungUp hphase hqueue hnone
      · cases h
    · cases h
  | answer =>
    unfold step at h
    dsimp only at h
    split at h
    · rename_i request closing hphase
      cases h
      exact .dispatched request closing hphase
    · cases h
  | dropReceiver =>
    unfold step at h
    dsimp only at h
    split at h
    · rename_i hphase
      cases h
      exact .dropped hphase
    · cases h
  | emitClosed =>
    unfold step at h
    dsimp only at h
    split at h
    · rename_i hphase
      cases h
      exact .closed hphase
    · cases h

/-! ## What stays in the ledger -/

/-- What is live in `i` is live in `i'`. -/
structure Keeps (i i' : Inflight) : Prop where
  tickets : ∀ req t, i.tickets.get? req = some t → i'.tickets.get? req = some t
  long : ∀ op, i.longOp = some op → i'.longOp = some op

theorem Keeps.refl (i : Inflight) : Keeps i i := ⟨fun _ _ h => h, fun _ h => h⟩

theorem Keeps.registerMarks {i i' : Inflight} {t : MarkTicket} (h : i.registerMarks t = .ok i') :
    Keeps i i' := by
  obtain ⟨hfree, -, -, rfl⟩ := Inflight.registerMarks_ok h
  refine ⟨fun req t' hlive => ?_, fun _ hlong => hlong⟩
  have hne : req ≠ t.req := by
    rintro rfl
    rw [hfree] at hlive
    cases hlive
  show (i.tickets.insert t.req t).get? req = some t'
  rw [OrdMap.get?_insert, if_neg hne]
  exact hlive

theorem Keeps.registerLong {i i' : Inflight} {long : LongOperation}
    (h : i.registerLong long = .ok i') : Keeps i i' := by
  obtain ⟨hnone, -, rfl⟩ := Inflight.registerLong_ok h
  refine ⟨fun _ _ hlive => hlive, fun op hlive => ?_⟩
  rw [hnone] at hlive
  cases hlive

theorem afterSend_ticket_keeps {s : System σ δ} (hlocked : s.bus.inflight.Locked) (act : Activation)
    (req : RequestId) (paths : List Bytes) (before : List (Bytes × Option MarkIntent))
    (request : BrowseRequest) (tickets : List MarkTicket) :
    Keeps s.bus.inflight (s.afterSend
      (match MarkTicket.new act req paths before with
        | .error refused => (.error refused, s.bus)
        | .ok ticket => s.bus.sendTicket ticket request) request tickets []).bus.inflight := by
  cases MarkTicket.new act req paths before with
  | error refused => exact .refl _
  | ok ticket =>
    dsimp only
    rcases Bus.sendTicket_spec hlocked ticket request with ⟨i, -, hregister, h⟩ | ⟨reason, h⟩
    · rw [h]
      exact .registerMarks hregister
    · rw [h]
      exact .refl _

/-- Only a settlement and a drain take anything from the ledger. -/
theorem step_keeps {s s' : System σ δ} (hlocked : s.bus.inflight.Locked) {op : Op σ}
    (hop : ∀ req, op.takes req = false) (h : s.step B op = some s') :
    Keeps s.bus.inflight s'.bus.inflight := by
  cases op with
  | settle req => simpa [Op.takes] using hop req
  | drain => cases hop 0
  | send request =>
    obtain ⟨-, rfl⟩ := withHandle_eq h
    rcases Bus.send_spec request s.bus with ⟨-, -, hsent⟩ | ⟨reason, hsent⟩
    · rw [hsent]
      exact .refl _
    · rw [hsent]
      exact .refl _
  | sendSetMarks act req entries before =>
    obtain ⟨-, rfl⟩ := withHandle_eq h
    exact afterSend_ticket_keeps hlocked act req _ before _ _
  | sendClearMarks act req =>
    obtain ⟨-, rfl⟩ := withHandle_eq h
    exact afterSend_ticket_keeps hlocked act req [] [] _ _
  | sendAutoSelect act req cancel =>
    obtain ⟨-, rfl⟩ := withHandle_eq h
    rcases Bus.sendAutoSelect_spec s.bus act req cancel with ⟨i, -, hregister, hsent⟩ | ⟨_, hsent⟩
    · rw [hsent]
      exact .registerLong hregister
    · rw [hsent]
      exact .refl _
  | beginClose =>
    obtain ⟨-, rfl⟩ := withHandle_eq h
    unfold Bus.beginCloseSend
    cases s.bus.receiver <;> exact .refl _
  | cloneHandle =>
    obtain ⟨-, rfl⟩ := withHandle_eq h
    exact .refl _
  | dropHandle =>
    obtain ⟨-, rfl⟩ := withHandle_eq h
    exact .refl _
  | elsewhere store =>
    cases h
    exact .refl _
  | recv | hangUp | answer | dropReceiver | emitClosed =>
    -- the actor's own moves do not touch the ledger
    unfold step at h
    dsimp only at h
    repeat' split at h
    all_goals cases h
    all_goals exact .refl _

theorem afterSettle_inflight (s : System σ δ) (req : RequestId) :
    (s.afterSettle (s.bus.settle req)).bus.inflight = (s.bus.inflight.settle req).2 := by
  unfold Bus.settle
  rcases s.bus.inflight.settle req with ⟨_ | _ | _, i⟩ <;> rfl

/-- A live ticket stays until its own settlement or a drain takes it. -/
theorem step_held {s s' : System σ δ} (hlocked : s.bus.inflight.Locked) {op : Op σ}
    (h : s.step B op = some s') {req : RequestId} {t : MarkTicket}
    (hlive : s.bus.inflight.tickets.get? req = some t) :
    s'.bus.inflight.tickets.get? req = if op.takes req then none else some t := by
  cases op with
  | settle settled =>
    obtain ⟨-, rfl⟩ := withHandle_eq h
    rw [afterSettle_inflight, (Inflight.settle_settles hlocked settled).held hlive]
    simp [Op.takes]
  | drain =>
    obtain ⟨-, rfl⟩ := withHandle_eq h
    rfl
  | _ => exact (step_keeps hlocked (fun _ => rfl) h).tickets req t hlive

theorem step_heldLong {s s' : System σ δ} (hlocked : s.bus.inflight.Locked) {op : Op σ}
    (h : s.step B op = some s') {long : LongOperation} (hlive : s.bus.inflight.longOp = some long) :
    s'.bus.inflight.longOp = if op.takes long.req then none else some long := by
  cases op with
  | settle settled =>
    obtain ⟨-, rfl⟩ := withHandle_eq h
    rw [afterSettle_inflight, (Inflight.settle_settles hlocked settled).heldLong hlocked hlive]
    simp [Op.takes]
  | drain =>
    obtain ⟨-, rfl⟩ := withHandle_eq h
    rfl
  | _ => exact (step_keeps hlocked (fun _ => rfl) h).long long hlive

end System

end Browse

end DedupCommando
