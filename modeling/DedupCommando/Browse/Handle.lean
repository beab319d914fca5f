import DedupCommando.Browse.Inflight

/-!
# The consumer's end of the actor

Every operation of a handle runs inside one send gate, so it is one step.

* `Bus` — the closing flag, the queue, the receiver and the ledger all clones share.
* `send`, `sendSetMarks`, `sendClearMarks`, `sendAutoSelect`, `settle`, `drainTickets`,
  `beginCloseSend` — the operations.
* `sendTicket_spec`, `sendAutoSelect_spec` — a typed send is accepted and held, or it is refused
  whole and nothing changed.
-/

set_option autoImplicit false

namespace DedupCommando

namespace Browse

/-- What every clone of one actor's handle shares. -/
structure Bus where
  closing : Bool
  queue : List BrowseRequest
  receiver : Bool
  inflight : Inflight

/-- A refused long operation, with the original token. -/
structure RefusedAutoSelect where
  reason : SendRefusal
  longOp : LongOperation

namespace Bus

/-- The channel before the first request. -/
def fresh : Bus := ⟨false, [], true, .empty⟩

/-- `send_under_gate` -/
def sendUnderGate (request : BrowseRequest) (b : Bus) : Except SendRefusal Unit × Bus :=
  if b.closing then (.error .closing, b)
  else if b.receiver then (.ok (), { b with queue := b.queue ++ [request] })
  else (.error .disconnected, b)

/-- `send` -/
def send (request : BrowseRequest) (b : Bus) : Except SendRefusal Unit × Bus :=
  match request with
  | .setMarks _ _ _ | .clearMarks _ _ | .autoSelect _ _ _ => (.error .requiresTicket, b)
  | .shutdown => (.error .shutdownReserved, b)
  | request => b.sendUnderGate request

/-- The gated half of a mark send: the closing check, the registration, the channel send and its
    rollback. -/
def sendTicket (ticket : MarkTicket) (request : BrowseRequest) (b : Bus) :
    Except RefusedMarkSend Unit × Bus :=
  if b.closing then (.error (.refused .closing ticket), b)
  else
    match b.inflight.registerMarks ticket with
    | .error refused => (.error refused, b)
    | .ok inflight =>
      match sendUnderGate request { b with inflight := inflight } with
      | (.error reason, b) =>
        (.error (.refused reason ticket), { b with inflight := (b.inflight.settle ticket.req).2 })
      | (.ok (), b) => (.ok (), b)

/-- `send_set_marks` -/
def sendSetMarks (act : Activation) (req : RequestId) (entries : List MarkedEntry)
    (before : List (Bytes × Option MarkIntent)) (b : Bus) : Except RefusedMarkSend Unit × Bus :=
  match MarkTicket.new act req (entries.map fun entry => entry.path) before with
  | .error refused => (.error refused, b)
  | .ok ticket => b.sendTicket ticket (.setMarks act req entries)

/-- `send_clear_marks`: the ticket names no pathname. -/
def sendClearMarks (act : Activation) (req : RequestId) (b : Bus) :
    Except RefusedMarkSend Unit × Bus :=
  match MarkTicket.new act req [] [] with
  | .error refused => (.error refused, b)
  | .ok ticket => b.sendTicket ticket (.clearMarks act req)

/-- `send_auto_select` -/
def sendAutoSelect (act : Activation) (req : RequestId) (cancel : CancelToken) (b : Bus) :
    Except RefusedAutoSelect Unit × Bus :=
  let longOp : LongOperation := ⟨act, req, cancel⟩
  if b.closing then (.error ⟨.closing, longOp⟩, b)
  else
    match b.inflight.registerLong longOp with
    | .error reason => (.error ⟨reason, longOp⟩, b)
    | .ok inflight =>
      match sendUnderGate (.autoSelect act req cancel) { b with inflight := inflight } with
      | (.error reason, b) =>
        (.error ⟨reason, longOp⟩, { b with inflight := (b.inflight.settle req).2 })
      | (.ok (), b) => (.ok (), b)

/-- `settle` -/
def settle (req : RequestId) (b : Bus) : Option Settled × Bus :=
  match b.inflight.settle req with
  | (settled, inflight) => (settled, { b with inflight := inflight })

/-- `drain_tickets` -/
def drainTickets (b : Bus) : (List MarkTicket × Option LongOperation) × Bus :=
  match b.inflight.drain with
  | (drained, inflight) => (drained, { b with inflight := inflight })

/-- `begin_close_send` -/
def beginCloseSend (b : Bus) : Bool × Bus :=
  let b := { b with closing := true }
  if b.receiver then (true, { b with queue := b.queue ++ [.shutdown] }) else (false, b)

/-! ## What a typed send leaves -/

/-- The channel took the request. -/
def Open (b : Bus) : Prop := b.closing = false ∧ b.receiver = true

/-- The send gate is the channel's: accepted while it is open, refused without a trace else. -/
theorem sendUnderGate_spec (request : BrowseRequest) (b : Bus) :
    b.Open ∧ b.sendUnderGate request = (.ok (), { b with queue := b.queue ++ [request] }) ∨
      ¬ b.Open ∧ ∃ reason, b.sendUnderGate request = (.error reason, b) := by
  unfold sendUnderGate Open
  cases hclosing : b.closing with
  | true => exact .inr ⟨by simp, _, rfl⟩
  | false =>
    cases hreceiver : b.receiver with
    | true => exact .inl ⟨⟨rfl, rfl⟩, rfl⟩
    | false => exact .inr ⟨by simp, _, rfl⟩

theorem send_spec (request : BrowseRequest) (b : Bus) :
    request ≠ .shutdown ∧ b.Open ∧
        b.send request = (.ok (), { b with queue := b.queue ++ [request] }) ∨
      ∃ reason, b.send request = (.error reason, b) := by
  have hgate : request ≠ .shutdown → b.send request = b.sendUnderGate request →
      request ≠ .shutdown ∧ b.Open ∧
        b.send request = (.ok (), { b with queue := b.queue ++ [request] }) ∨
      ∃ reason, b.send request = (.error reason, b) := by
    intro hne heq
    rw [heq]
    rcases b.sendUnderGate_spec request with ⟨hopen, h⟩ | ⟨-, h⟩
    · exact .inl ⟨hne, hopen, h⟩
    · exact .inr h
  cases request with
  | setMarks act req entries => exact .inr ⟨_, rfl⟩
  | clearMarks act req => exact .inr ⟨_, rfl⟩
  | autoSelect act req cancel => exact .inr ⟨_, rfl⟩
  | shutdown => exact .inr ⟨_, rfl⟩
  | _ => exact hgate (by simp) rfl

/-- **A ticket is held or returned whole.** -/
theorem sendTicket_spec {b : Bus} (hb : b.inflight.Locked) (ticket : MarkTicket)
    (request : BrowseRequest) :
    (∃ inflight, b.Open ∧ b.inflight.registerMarks ticket = .ok inflight ∧
      b.sendTicket ticket request =
        (.ok (), { b with inflight := inflight, queue := b.queue ++ [request] })) ∨
    ∃ reason, b.sendTicket ticket request = (.error (.refused reason ticket), b) := by
  unfold sendTicket
  split
  · exact .inr ⟨_, rfl⟩
  cases hregister : b.inflight.registerMarks ticket with
  | error refused =>
    obtain ⟨reason, rfl⟩ := Inflight.registerMarks_error hregister
    exact .inr ⟨reason, rfl⟩
  | ok inflight =>
    dsimp only
    rcases sendUnderGate_spec request { b with inflight := inflight } with ⟨hopen, h⟩ | ⟨-, reason, h⟩
    · left
      rw [h]
      exact ⟨inflight, hopen, rfl, rfl⟩
    · right
      rw [h]
      refine ⟨reason, ?_⟩
      dsimp only
      rw [Inflight.settle_registerMarks hb hregister]

/-- **A long operation is held or returned whole.** -/
theorem sendAutoSelect_spec (b : Bus) (act : Activation) (req : RequestId) (cancel : CancelToken) :
    (∃ inflight, b.Open ∧ b.inflight.registerLong ⟨act, req, cancel⟩ = .ok inflight ∧
      b.sendAutoSelect act req cancel =
        (.ok (), { b with inflight := inflight, queue := b.queue ++ [.autoSelect act req cancel] })) ∨
    ∃ reason, b.sendAutoSelect act req cancel = (.error ⟨reason, act, req, cancel⟩, b) := by
  unfold sendAutoSelect
  dsimp only
  split
  · exact .inr ⟨_, rfl⟩
  cases hregister : b.inflight.registerLong ⟨act, req, cancel⟩ with
  | error reason => exact .inr ⟨reason, rfl⟩
  | ok inflight =>
    dsimp only
    rcases sendUnderGate_spec (.autoSelect act req cancel) { b with inflight := inflight } with
      ⟨hopen, h⟩ | ⟨-, reason, h⟩
    · left
      rw [h]
      exact ⟨inflight, hopen, rfl, rfl⟩
    · right
      rw [h]
      refine ⟨reason, ?_⟩
      dsimp only
      rw [Inflight.settle_registerLong hregister]

end Bus

end Browse

end DedupCommando
