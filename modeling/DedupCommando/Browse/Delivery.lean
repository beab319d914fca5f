import DedupCommando.Browse.Protocol

/-!
# Every accepted request is answered once

* `Shaped` — nothing but stops stands behind a stop in the queue, and the phases of the actor.
* `Delivered` — the invariant: what was accepted is what was answered and what is still pending,
  the sink holds one reply for each answer, and the tickets are in one place each.
* `Delivered.step` — it survives every step; `work` — the actor's own steps lead to its end.
* `protocol` — all of it, in every reachable state.
-/

set_option autoImplicit false

namespace DedupCommando

namespace Browse

/-- The actor still takes requests. -/
def Phase.serving : Phase → Bool
  | waiting | holding _ _ => true
  | leaving | dropped | done => false

def Phase.hasReceiver : Phase → Bool
  | dropped | done => false
  | waiting | holding _ _ | leaving => true

/-- The request in hand. -/
def Phase.inHand : Phase → List BrowseRequest
  | holding request _ => [request]
  | _ => []

/-- `Closed`, once it is out. -/
def Phase.closedPart {δ : Type} : Phase → List (SinkEvent δ)
  | done => [.closed]
  | _ => []

namespace System

variable {σ δ : Type} {B : Backend σ δ}

/-- The requests of the queue. -/
def queued (s : System σ δ) : List BrowseRequest := s.bus.queue.filter fun r => !r.isShutdown

/-- Accepted, and not dispatched yet. -/
def pending (s : System σ δ) : List BrowseRequest := s.phase.inHand ++ s.queued

/-- The queue holds requests and then stops. -/
structure Shaped (s : System σ δ) : Prop where
  queue : ∃ requests stops, s.bus.queue = requests ++ stops ∧
    (∀ r ∈ requests, r.isShutdown = false) ∧ (∀ r ∈ stops, r.isShutdown = true) ∧
    (s.bus.closing = false → stops = []) ∧
    (s.phase.serving = true → s.bus.closing = true → stops ≠ []) ∧
    (s.phase.serving = false → requests = [])
  receiver : s.bus.receiver = s.phase.hasReceiver
  ended : s.phase.serving = false → s.bus.closing = true ∨ s.handles = 0
  held : ∀ r ∈ s.phase.inHand, r.isShutdown = false

theorem Shaped.step {s s' : System σ δ} (h : s.Shaped) (heffect : Effect B s s') : s'.Shaped := by
  obtain ⟨⟨requests, stops, hqueue, hrequests, hstops, hopen, hserving, hended⟩, hreceiver, hend,
    hheld⟩ := h
  cases heffect with
  | handles n hpos =>
    refine ⟨⟨requests, stops, hqueue, hrequests, hstops, hopen, hserving, hended⟩, hreceiver, ?_,
      hheld⟩
    intro hs
    exact .inl ((hend hs).resolve_right hpos)
  | elsewhere store =>
    exact ⟨⟨requests, stops, hqueue, hrequests, hstops, hopen, hserving, hended⟩, hreceiver, hend,
      hheld⟩
  | accepted request i tickets longs hpos hbus hrequest hmoves =>
    obtain ⟨hclosing, -⟩ := hbus
    have hnil := hopen hclosing
    have hphase : s.phase.serving = true := by
      by_contra hs
      rcases hend (by simpa using hs) with hc | hz
      · rw [hclosing] at hc
        cases hc
      · exact hpos hz
    refine ⟨⟨requests ++ [request], [], ?_, ?_, ?_, fun _ => rfl, ?_, ?_⟩, hreceiver, hend, hheld⟩
    · show s.bus.queue ++ [request] = _
      rw [hqueue, hnil, List.append_nil, List.append_nil]
    · intro r hr
      rcases List.mem_append.1 hr with hr | hr
      · exact hrequests r hr
      · exact List.mem_singleton.1 hr ▸ hrequest
    · exact fun _ hr => absurd hr List.not_mem_nil
    · intro _ hc
      rw [show s.bus.closing = true from hc] at hclosing
      cases hclosing
    · intro hs
      rw [show s.phase.serving = false from hs] at hphase
      cases hphase
  | released i tickets longs hpos hmoves =>
    exact ⟨⟨requests, stops, hqueue, hrequests, hstops, hopen, hserving, hended⟩, hreceiver, hend,
      hheld⟩
  | beginClose hpos =>
    cases hr : s.bus.receiver with
    | true =>
      have hbus : s.bus.beginCloseSend.2 =
          { s.bus with closing := true, queue := s.bus.queue ++ [.shutdown] } := by
        unfold Bus.beginCloseSend
        simp [hr]
      rw [hbus]
      refine ⟨⟨requests, stops ++ [.shutdown], ?_, hrequests, ?_, fun hc => (by cases hc), ?_, hended⟩,
        hreceiver, fun _ => .inl rfl, hheld⟩
      · show s.bus.queue ++ [.shutdown] = _
        rw [hqueue, List.append_assoc]
      · intro r hr
        rcases List.mem_append.1 hr with hr | hr
        · exact hstops r hr
        · exact List.mem_singleton.1 hr ▸ rfl
      · exact fun _ _ => List.append_ne_nil_of_right_ne_nil _ (List.cons_ne_nil _ _)
    | false =>
      have hbus : s.bus.beginCloseSend.2 = { s.bus with closing := true } := by
        unfold Bus.beginCloseSend
        simp [hr]
      rw [hbus]
      refine ⟨⟨requests, stops, hqueue, hrequests, hstops, fun hc => (by cases hc), ?_, hended⟩,
        hreceiver, fun _ => .inl rfl, hheld⟩
      intro hs
      rw [hr] at hreceiver
      cases hphase : s.phase <;> rw [hphase] at hreceiver hs <;> cases hreceiver <;> cases hs
  | received request rest hphase hcons =>
    rw [hphase] at hserving hended hreceiver
    rw [hcons] at hqueue
    cases requests with
    | nil =>
      have hrequest : request.isShutdown = true := hstops request (by
        rw [List.nil_append] at hqueue
        exact hqueue ▸ List.mem_cons_self)
      have hclosing : s.bus.closing = true := by
        cases hc : s.bus.closing with
        | true => rfl
        | false =>
          rw [hopen hc] at hqueue
          cases hqueue
      rw [received, hrequest]
      refine ⟨⟨[], rest, rfl, fun _ hr => absurd hr List.not_mem_nil, ?_, ?_, ?_, fun _ => rfl⟩,
        hreceiver, fun _ => .inl hclosing, fun _ hr => absurd hr List.not_mem_nil⟩
      · intro r hr
        apply hstops
        rw [List.nil_append] at hqueue
        exact hqueue ▸ List.mem_cons_of_mem _ hr
      · intro hc
        rw [show s.bus.closing = false from hc] at hclosing
        cases hclosing
      · intro hs
        cases hs
    | cons first requests =>
      rw [List.cons_append, List.cons.injEq] at hqueue
      obtain ⟨rfl, rfl⟩ := hqueue
      have hrequest : request.isShutdown = false := hrequests request List.mem_cons_self
      rw [received, hrequest]
      refine ⟨⟨requests, stops, rfl, fun r hr => hrequests r (List.mem_cons_of_mem _ hr), hstops,
        hopen, fun _ => hserving rfl, fun hs => (by cases hs)⟩, hreceiver, fun hs => (by cases hs), ?_⟩
      intro r hr
      exact List.mem_singleton.1 hr ▸ hrequest
  | hungUp hphase hnil hnone =>
    rw [hphase] at hreceiver
    refine ⟨⟨[], [], hnil, fun _ hr => absurd hr List.not_mem_nil,
      fun _ hr => absurd hr List.not_mem_nil, fun _ => rfl, fun hs => (by cases hs), fun _ => rfl⟩,
      hreceiver, fun _ => .inr hnone, fun _ hr => absurd hr List.not_mem_nil⟩
  | dispatched request closing hphase =>
    rw [hphase] at hserving hended hreceiver
    exact ⟨⟨requests, stops, hqueue, hrequests, hstops, hopen, hserving, fun hs => (by cases hs)⟩,
      hreceiver, fun hs => (by cases hs), fun _ hr => absurd hr List.not_mem_nil⟩
  | dropped hphase =>
    rw [hphase] at hend
    exact ⟨⟨[], [], rfl, fun _ hr => absurd hr List.not_mem_nil,
      fun _ hr => absurd hr List.not_mem_nil, fun _ => rfl, fun hs => (by cases hs), fun _ => rfl⟩,
      rfl, hend, fun _ hr => absurd hr List.not_mem_nil⟩
  | closed hphase =>
    rw [hphase] at hend hended hreceiver
    exact ⟨⟨requests, stops, hqueue, hrequests, hstops, hopen, fun hs => (by cases hs), hended⟩,
      hreceiver, hend, fun _ hr => absurd hr List.not_mem_nil⟩

/-! ## The invariant -/

/-- What was accepted is answered or pending, each answer is one reply in the sink, and every
    ticket is in the ledger or was given back. -/
structure Delivered (B : Backend σ δ) (role : BrowseRole) (s : System σ δ) : Prop
    extends Shaped s where
  actor : Actor.Reach B role s.actor
  locked : s.bus.inflight.Locked
  handed : s.handed.Perm (s.taken ++ s.bus.inflight.tickets.values)
  handedLong : s.handedLong.Perm (s.takenLong ++ s.bus.inflight.longOp.toList)
  accepted : s.accepted = s.answered ++ s.pending
  sink : ∃ replies, s.sink = replies.map SinkEvent.reply ++ s.phase.closedPart ∧
    List.Forall₂ BrowseEvent.answers replies s.answered

variable {role : BrowseRole}

/-- Handed over before, or now: given back before, or now, or in the ledger. -/
theorem perm_moved {α : Type} {handed taken held held' tin tout : List α}
    (h : handed.Perm (taken ++ held)) (hm : (held ++ tin).Perm (tout ++ held')) :
    (handed ++ tin).Perm (taken ++ tout ++ held') := by
  have hright := (h.append_right tin).trans (by rw [List.append_assoc])
  rw [List.append_assoc]
  exact hright.trans (hm.append_left taken)

theorem queued_of_stops {s : System σ δ} (h : s.Shaped) (hs : s.phase.serving = false) :
    s.queued = [] := by
  obtain ⟨requests, stops, hqueue, -, hstops, -, -, hended⟩ := h.queue
  unfold queued
  rw [hqueue, hended hs, List.nil_append, List.filter_eq_nil_iff]
  intro r hr
  simp [hstops r hr]

theorem Delivered.start (store : σ) : Delivered B role (start role store) := by
  refine ⟨⟨⟨[], [], rfl, ?_, ?_, fun _ => rfl, ?_, fun _ => rfl⟩, rfl, ?_, ?_⟩, .spawn store,
    Inflight.empty_locked, .refl _, .refl _, rfl, [], rfl, .nil⟩
  · exact fun _ hr => absurd hr List.not_mem_nil
  · exact fun _ hr => absurd hr List.not_mem_nil
  · intro _ hc
    cases hc
  · intro hs
    cases hs
  · exact fun _ hr => absurd hr List.not_mem_nil

/-- **Every step keeps the delivery.** -/
theorem Delivered.step {s s' : System σ δ} (h : Delivered B role s) (heffect : Effect B s s') :
    Delivered B role s' := by
  have hshaped := h.toShaped.step heffect
  obtain ⟨replies, hsink, hanswers⟩ := h.sink
  have haccepted := h.accepted
  unfold pending queued at haccepted
  cases heffect with
  | handles n hpos =>
    exact ⟨hshaped, h.actor, h.locked, h.handed, h.handedLong, h.accepted, replies, hsink, hanswers⟩
  | elsewhere store =>
    exact ⟨hshaped, .elsewhere store h.actor, h.locked, h.handed, h.handedLong, h.accepted, replies,
      hsink, hanswers⟩
  | accepted request i tickets longs hpos hopen hrequest hmoves =>
    refine ⟨hshaped, h.actor, hmoves.locked, ?_, ?_, ?_, replies, hsink, hanswers⟩
    · simpa using perm_moved h.handed hmoves.tickets
    · simpa using perm_moved h.handedLong hmoves.longs
    · show s.accepted ++ [request] =
        s.answered ++ (s.phase.inHand ++ (s.bus.queue ++ [request]).filter fun r => !r.isShutdown)
      rw [haccepted, List.filter_append, List.filter_cons_of_pos (by simp [hrequest]),
        List.filter_nil]
      simp only [List.append_assoc]
  | released i tickets longs hpos hmoves =>
    refine ⟨hshaped, h.actor, hmoves.locked, ?_, ?_, h.accepted, replies, hsink, hanswers⟩
    · simpa using perm_moved h.handed hmoves.tickets
    · simpa using perm_moved h.handedLong hmoves.longs
  | beginClose hpos =>
    have hqueue : (s.bus.beginCloseSend.2.queue.filter fun r => !r.isShutdown) = s.queued := by
      unfold Bus.beginCloseSend queued
      cases s.bus.receiver with
      | true => simp [BrowseRequest.isShutdown]
      | false => rfl
    have hinflight : s.bus.beginCloseSend.2.inflight = s.bus.inflight := by
      unfold Bus.beginCloseSend
      cases s.bus.receiver <;> rfl
    refine ⟨hshaped, h.actor, hinflight ▸ h.locked, ?_, ?_, ?_, replies, hsink, hanswers⟩
    · show s.handed.Perm (s.taken ++ s.bus.beginCloseSend.2.inflight.tickets.values)
      rw [hinflight]
      exact h.handed
    · show s.handedLong.Perm (s.takenLong ++ s.bus.beginCloseSend.2.inflight.longOp.toList)
      rw [hinflight]
      exact h.handedLong
    · show s.accepted = s.answered ++
        (s.phase.inHand ++ s.bus.beginCloseSend.2.queue.filter fun r => !r.isShutdown)
      rw [hqueue]
      exact h.accepted
  | received request rest hphase hcons =>
    rw [hphase, hcons] at haccepted
    rw [hphase] at hsink
    cases hrequest : request.isShutdown with
    | true =>
      rw [received, hrequest] at hshaped ⊢
      refine ⟨hshaped, h.actor, h.locked, h.handed, h.handedLong, ?_, replies, hsink, hanswers⟩
      rw [List.filter_cons_of_neg (by simp [hrequest])] at haccepted
      exact haccepted
    | false =>
      rw [received, hrequest] at hshaped ⊢
      refine ⟨hshaped, h.actor, h.locked, h.handed, h.handedLong, ?_, replies, hsink, hanswers⟩
      rw [List.filter_cons_of_pos (by simp [hrequest])] at haccepted
      exact haccepted
  | hungUp hphase hnil hnone =>
    rw [hphase] at haccepted hsink
    exact ⟨hshaped, h.actor, h.locked, h.handed, h.handedLong, haccepted, replies, hsink, hanswers⟩
  | dispatched request closing hphase =>
    rw [hphase] at haccepted hsink
    have hne : request ≠ .shutdown := by
      have hheld := h.held request (by rw [hphase]; exact List.mem_singleton.2 rfl)
      intro heq
      rw [heq] at hheld
      cases hheld
    obtain ⟨new, e, hcontract⟩ := (Actor.actor_contract B h.actor).2 closing request hne
    have hdrop : (s.actor.dispatch B closing request).emitted.drop s.actor.emitted.length = [e] := by
      rw [hcontract.emitted, List.drop_left]
    refine ⟨hshaped, .dispatch closing request h.actor, h.locked, h.handed, h.handedLong, ?_,
      replies ++ [e.event], ?_, ?_⟩
    · show s.accepted = s.answered ++ [request] ++ ([] ++ _)
      rw [haccepted, List.append_assoc]
      rfl
    · show s.sink ++ ((s.actor.dispatch B closing request).emitted.drop
        s.actor.emitted.length).map (fun e => SinkEvent.reply e.event) = _
      rw [hdrop, hsink, List.map_append]
      simp [Phase.closedPart, dispatched]
    · exact List.rel_append hanswers (.cons hcontract.answers .nil)
  | dropped hphase =>
    have hnone := queued_of_stops h.toShaped (by rw [hphase]; rfl)
    unfold queued at hnone
    rw [hnone, hphase] at haccepted
    rw [hphase] at hsink
    exact ⟨hshaped, h.actor, h.locked, h.handed, h.handedLong, haccepted, replies, hsink, hanswers⟩
  | closed hphase =>
    rw [hphase] at haccepted hsink
    refine ⟨hshaped, h.actor, h.locked, h.handed, h.handedLong, haccepted, replies, ?_, hanswers⟩
    show s.sink ++ [SinkEvent.closed] = _
    rw [hsink]
    simp [Phase.closedPart]

theorem Reachable.delivered {s : System σ δ} (h : Reachable B role s) : Delivered B role s := by
  induction h with
  | start store => exact Delivered.start store
  | step op _ hs ih => exact ih.step (step_effect ih.locked hs)

/-! ## The end of the actor -/

/-- The moves the actor's thread still has to make, once nothing more is accepted. -/
def work (s : System σ δ) : Nat :=
  match s.phase with
  | .waiting => 2 * s.queued.length + 3
  | .holding _ _ => 2 * s.queued.length + 4
  | .leaving => 2
  | .dropped => 1
  | .done => 0

/-- Nothing more is accepted: closing, or without a handle. -/
def Ending (s : System σ δ) : Prop := s.bus.closing = true ∨ s.handles = 0

theorem work_of_waiting {s : System σ δ} (h : s.phase = .waiting) :
    s.work = 2 * s.queued.length + 3 := by
  unfold work
  rw [h]

theorem work_received {s : System σ δ} {request : BrowseRequest} {rest : List BrowseRequest}
    (hphase : s.phase = .waiting) (hqueue : s.bus.queue = request :: rest) :
    (s.received request rest).work < s.work := by
  rw [work_of_waiting hphase]
  unfold queued
  rw [hqueue]
  cases hrequest : request.isShutdown with
  | true =>
    rw [received, hrequest]
    show 2 < _
    omega
  | false =>
    rw [received, hrequest, List.filter_cons_of_pos (by simp [hrequest])]
    show 2 * (rest.filter fun r => !r.isShutdown).length + 4 < _
    simp only [List.length_cons]
    omega

theorem work_dispatched {s : System σ δ} {request : BrowseRequest} {closing : Bool}
    (hphase : s.phase = .holding request closing) :
    (s.dispatched B request closing).work < s.work := by
  have hwork : s.work = 2 * s.queued.length + 4 := by
    unfold work
    rw [hphase]
  rw [hwork]
  show 2 * s.queued.length + 3 < _
  omega

/-- Every move of the actor's thread leaves it less to do. -/
theorem work_actor {s s' : System σ δ} {op : Op σ} (hop : op.ofActor = true)
    (hs : s.step B op = some s') : s'.work < s.work := by
  cases op <;> try (cases hop)
  case recv =>
    unfold step at hs
    dsimp only at hs
    split at hs
    · rename_i request rest hphase hqueue
      cases hs
      exact work_received hphase hqueue
    · cases hs
  case answer =>
    unfold step at hs
    dsimp only at hs
    split at hs
    · rename_i request closing hphase
      cases hs
      exact work_dispatched hphase
    · cases hs
  case hangUp =>
    unfold step at hs
    dsimp only at hs
    split at hs
    · rename_i hphase hqueue
      split at hs
      · cases hs
        rw [work_of_waiting hphase]
        show 2 < _
        omega
      · cases hs
    · cases hs
  case dropReceiver =>
    unfold step at hs
    dsimp only at hs
    split at hs
    · rename_i hphase
      cases hs
      unfold work
      rw [hphase]
      exact one_lt_two
    · cases hs
  case emitClosed =>
    unfold step at hs
    dsimp only at hs
    split at hs
    · rename_i hphase
      cases hs
      unfold work
      rw [hphase]
      exact zero_lt_one
    · cases hs

/-- Once nothing more is accepted, no other step gives the actor more to do. -/
theorem work_le {s s' : System σ δ} (hending : s.Ending) (heffect : Effect B s s') :
    s'.work ≤ s.work := by
  cases heffect with
  | handles n hpos => exact le_refl _
  | elsewhere store => exact le_refl _
  | accepted request i tickets longs hpos hopen hrequest hmoves =>
    rcases hending with hclosing | hnone
    · rw [hopen.1] at hclosing
      cases hclosing
    · exact absurd hnone hpos
  | released i tickets longs hpos hmoves => exact le_refl _
  | beginClose hpos =>
    have hqueue : (s.bus.beginCloseSend.2.queue.filter fun r => !r.isShutdown) =
        s.bus.queue.filter fun r => !r.isShutdown := by
      unfold Bus.beginCloseSend
      cases s.bus.receiver with
      | true => simp [BrowseRequest.isShutdown]
      | false => rfl
    unfold work queued
    rw [hqueue]
  | received request rest hphase hqueue => exact le_of_lt (work_received hphase hqueue)
  | hungUp hphase hqueue hnone =>
    rw [work_of_waiting hphase]
    show 2 ≤ _
    omega
  | dispatched request closing hphase => exact le_of_lt (work_dispatched hphase)
  | dropped hphase =>
    unfold work
    rw [hphase]
    exact one_le_two
  | closed hphase =>
    unfold work
    rw [hphase]
    exact zero_le_one

/-- The actor's thread is never stuck before its end. -/
theorem actor_enabled {s : System σ δ} (h : s.Shaped) (hending : s.Ending)
    (hphase : s.phase ≠ .done) : ∃ op s', op.ofActor = true ∧ s.step B op = some s' := by
  cases hp : s.phase with
  | done => exact absurd hp hphase
  | holding request closing => exact ⟨.answer, _, rfl, by unfold step; rw [hp]⟩
  | leaving => exact ⟨.dropReceiver, _, rfl, by unfold step; rw [hp]⟩
  | dropped => exact ⟨.emitClosed, _, rfl, by unfold step; rw [hp]⟩
  | waiting =>
    cases hq : s.bus.queue with
    | cons request rest => exact ⟨.recv, _, rfl, by unfold step; rw [hp, hq]⟩
    | nil =>
      rcases hending with hclosing | hnone
      · obtain ⟨requests, stops, hqueue, -, -, -, hserving, -⟩ := h.queue
        have hne := hserving (by rw [hp]; rfl) hclosing
        rw [hq] at hqueue
        exact absurd (List.append_eq_nil_iff.1 hqueue.symm).2 hne
      · exact ⟨.hangUp, _, rfl, by unfold step; rw [hp, hq]; exact if_pos hnone⟩

/-! ## The protocol -/

/-- Everything the caller of a mark send supplied came back. -/
def Whole (act : Activation) (req : RequestId) (paths : List Bytes)
    (before : List (Bytes × Option MarkIntent)) : RefusedMarkSend → Prop
  | .invalid _ inputs => inputs = ⟨act, req, paths, before⟩
  | .refused _ t => t.act = act ∧ t.req = req ∧ t.paths = paths ∧ t.before = before

/-- A mark send is accepted and its ticket held, or it is refused whole and nothing changed. -/
def HeldOrReturned (b : Bus) (act : Activation) (req : RequestId) (paths : List Bytes)
    (before : List (Bytes × Option MarkIntent)) (sent : Except RefusedMarkSend Unit × Bus) : Prop :=
  (∃ b' t, sent = (.ok (), b') ∧ b.closing = false ∧ b'.inflight.tickets.get? req = some t ∧
    t.act = act ∧ t.req = req ∧ t.paths = paths ∧ t.before = before) ∨
  ∃ refused, sent = (.error refused, b) ∧ Whole act req paths before refused

theorem sendTicket_held {b : Bus} (hb : b.inflight.Locked) (act : Activation) (req : RequestId)
    (paths : List Bytes) (before : List (Bytes × Option MarkIntent)) (request : BrowseRequest) :
    HeldOrReturned b act req paths before
      (match MarkTicket.new act req paths before with
        | .error refused => (.error refused, b)
        | .ok ticket => b.sendTicket ticket request) := by
  rcases MarkTicket.new_whole act req paths before with
    ⟨t, hnew, hact, hreq, hpaths, hbefore⟩ | ⟨reason, hnew⟩
  · rw [hnew]
    dsimp only
    rcases Bus.sendTicket_spec hb t request with ⟨i, hopen, hregister, h⟩ | ⟨reason, h⟩
    · left
      rw [h]
      refine ⟨_, t, rfl, hopen.1, ?_, hact, hreq, hpaths, hbefore⟩
      obtain ⟨-, -, -, rfl⟩ := Inflight.registerMarks_ok hregister
      rw [← hreq]
      exact OrdMap.get?_insert_self _ _ _
    · right
      exact ⟨_, h, hact, hreq, hpaths, hbefore⟩
  · rw [hnew]
    exact .inr ⟨_, rfl, rfl⟩

/-- The browsing actor's protocol, in one state and over the steps it can take. -/
structure Protocol (B : Backend σ δ) (s : System σ δ) : Prop where
  /-- the sink holds one terminal event for each answered request, in order, and then at most
      `Closed` -/
  replies : ∃ replies, s.sink = replies.map SinkEvent.reply ++ s.phase.closedPart ∧
    List.Forall₂ BrowseEvent.answers replies s.answered
  /-- what was accepted is answered or still pending, and nothing is pending at the end -/
  accepted : s.accepted = s.answered ++ s.pending
  ended : s.phase = .done → s.pending = []
  /-- every ticket was given back once, or is in the ledger -/
  handed : s.handed.Perm (s.taken ++ s.bus.inflight.tickets.values)
  handedLong : s.handedLong.Perm (s.takenLong ++ s.bus.inflight.longOp.toList)
  /-- the locks are the disjoint union of the paths of the live tickets -/
  locks : s.bus.inflight.locks.keys.Perm
    (s.bus.inflight.tickets.values.flatMap fun t => t.paths.map pathOrder)
  disjoint : s.bus.inflight.locks.keys.Nodup
  setMarks : ∀ act req entries before, HeldOrReturned s.bus act req
    (entries.map fun e => e.path) before (s.bus.sendSetMarks act req entries before)
  clearMarks : ∀ act req, HeldOrReturned s.bus act req [] [] (s.bus.sendClearMarks act req)
  autoSelect : ∀ act req cancel,
    (∃ b', s.bus.sendAutoSelect act req cancel = (.ok (), b') ∧ s.bus.closing = false ∧
      b'.inflight.longOp = some ⟨act, req, cancel⟩) ∨
    ∃ reason, s.bus.sendAutoSelect act req cancel = (.error ⟨reason, act, req, cancel⟩, s.bus)
  /-- a settlement hands back what is owed to its request id and frees the locks; a drain hands
      back all that is live and empties the ledger; no other operation takes anything -/
  settle : ∀ req, ∃ out i, s.bus.settle req = (out, { s.bus with inflight := i }) ∧
    s.bus.inflight.Settles req out i
  drain : s.bus.drainTickets = ((s.bus.inflight.tickets.values, s.bus.inflight.longOp),
    { s.bus with inflight := .empty })
  held : ∀ op s', s.step B op = some s' → ∀ req t, s.bus.inflight.tickets.get? req = some t →
    s'.bus.inflight.tickets.get? req = if op.takes req then none else some t
  heldLong : ∀ op s', s.step B op = some s' → ∀ long, s.bus.inflight.longOp = some long →
    s'.bus.inflight.longOp = if op.takes long.req then none else some long
  /-- nothing is accepted after the close, and nothing is emitted after `Closed` -/
  closed : ∀ op s', s.step B op = some s' → s.bus.closing = true →
    s'.bus.closing = true ∧ s'.accepted = s.accepted
  last : ∀ op s', s.step B op = some s' → s.phase = .done → s'.phase = .done ∧ s'.sink = s.sink
  /-- once nothing more is accepted, the actor's own moves lead to `Closed`, whatever else runs -/
  enabled : s.Ending → s.phase ≠ .done → ∃ op s', op.ofActor = true ∧ s.step B op = some s'
  leads : s.Ending → ∀ op s', s.step B op = some s' → s'.work ≤ s.work ∧
    (op.ofActor = true → s'.work < s.work)

theorem Effect.closed_accepted {s s' : System σ δ} (h : Effect B s s')
    (hclosing : s.bus.closing = true) : s'.bus.closing = true ∧ s'.accepted = s.accepted := by
  cases h with
  | accepted request i tickets longs hpos hopen hrequest hmoves =>
    rw [hopen.1] at hclosing
    cases hclosing
  | beginClose hpos =>
    refine ⟨?_, rfl⟩
    show s.bus.beginCloseSend.2.closing = true
    unfold Bus.beginCloseSend
    cases s.bus.receiver <;> rfl
  | received request rest hphase hqueue => exact ⟨hclosing, rfl⟩
  | _ => exact ⟨hclosing, rfl⟩

theorem Effect.done_last {s s' : System σ δ} (h : Effect B s s') (hdone : s.phase = .done) :
    s'.phase = .done ∧ s'.sink = s.sink := by
  cases h with
  | received request rest hphase hqueue => rw [hphase] at hdone; cases hdone
  | hungUp hphase hqueue hnone => rw [hphase] at hdone; cases hdone
  | dispatched request closing hphase => rw [hphase] at hdone; cases hdone
  | dropped hphase => rw [hphase] at hdone; cases hdone
  | closed hphase => rw [hphase] at hdone; cases hdone
  | _ => exact ⟨hdone, rfl⟩

/-- **The protocol of the browsing actor**, in every state of every interleaving. -/
theorem protocol (B : Backend σ δ) {role : BrowseRole} {s : System σ δ} (h : Reachable B role s) :
    Protocol B s := by
  have hdelivered := h.delivered
  have hlocked := hdelivered.locked
  refine
    { replies := hdelivered.sink
      accepted := hdelivered.accepted
      ended := ?_
      handed := hdelivered.handed
      handedLong := hdelivered.handedLong
      locks := hlocked.locks_perm
      disjoint := OrdMap.keys_nodup _
      setMarks := fun act req entries before => sendTicket_held hlocked act req _ before _
      clearMarks := fun act req => sendTicket_held hlocked act req [] [] _
      autoSelect := ?_
      settle := fun req => ⟨_, _, rfl, Inflight.settle_settles hlocked req⟩
      drain := rfl
      held := fun op s' hs req t => step_held hlocked hs
      heldLong := fun op s' hs long => step_heldLong hlocked hs
      closed := fun op s' hs => (step_effect hlocked hs).closed_accepted
      last := fun op s' hs => (step_effect hlocked hs).done_last
      enabled := actor_enabled hdelivered.toShaped
      leads := fun hending op s' hs =>
        ⟨work_le hending (step_effect hlocked hs), fun hop => work_actor hop hs⟩ }
  · intro hdone
    unfold pending
    rw [queued_of_stops hdelivered.toShaped (by rw [hdone]; rfl), hdone]
    rfl
  · intro act req cancel
    rcases s.bus.sendAutoSelect_spec act req cancel with ⟨i, hopen, hregister, hsent⟩ | hsent
    · obtain ⟨-, -, rfl⟩ := Inflight.registerLong_ok hregister
      exact .inl ⟨_, hsent, hopen.1, rfl⟩
    · exact .inr hsent

/-- One mark of `/a` and, while it is live, a second one; dispatch, settlement and close. -/
def markOnce : List (Op Actor.Replaced) :=
  let mark : List MarkedEntry := [⟨⟨[47, 97], 0, 0, 0, 0, 0, 0, 0, 1⟩, false, none⟩]
  [.sendSetMarks 1 2 mark [([47, 97], none)], .sendSetMarks 1 3 mark [([47, 97], none)],
    .sendAutoSelect 1 4 0, .recv, .answer, .settle 2, .drain, .beginClose,
    .sendClearMarks 1 5, .recv, .answer, .recv, .dropReceiver, .emitClosed]

theorem protocol_sample : ∃ s, (start .operator Actor.Replaced.no).run Actor.sampleBackend markOnce = some s ∧
    (s.taken.map fun t => t.req) = [2] ∧ (s.takenLong.map fun op => op.req) = [4] ∧
    s.sink.length = 3 ∧ Protocol Actor.sampleBackend s := by
  obtain ⟨s, hrun, htaken, hlong, hsink⟩ : ∃ s,
      (start .operator Actor.Replaced.no).run Actor.sampleBackend markOnce = some s ∧
        (s.taken.map fun t => t.req) = [2] ∧ (s.takenLong.map fun op => op.req) = [4] ∧
        s.sink.length = 3 := ⟨_, rfl, rfl, rfl, rfl⟩
  exact ⟨s, hrun, htaken, hlong, hsink,
    protocol Actor.sampleBackend ((Reachable.start Actor.Replaced.no).run _ hrun)⟩

end System

end Browse

end DedupCommando
