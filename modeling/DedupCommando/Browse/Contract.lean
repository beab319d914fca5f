import DedupCommando.Browse.Opening

/-!
# The browsing actor over its whole life

* `handle_served`, `refuseClosing_replied` — every request but `Open`, and the closing path.
* `Reach` — whatever is asked, whatever the store answers, and whatever happens to it in between.
* `Reach.installed_open` — an installed scan stands on an open connection.
* `actor_contract` — the gates, the poisoning, and the way out of it; `not_actor_contract` — the
  reports that do not poison.
-/

set_option autoImplicit false

namespace DedupCommando

namespace Browse

namespace Actor

variable {σ δ : Type} {B : Backend σ δ}

theorem handle_served (request : BrowseRequest) (hopen : request.isOpen = false)
    (hshutdown : request ≠ .shutdown) (a : Actor σ δ) :
    ∃ new e, Served B request a (a.handle B request) new e := by
  cases request with
  | «open» act req scanId => cases hopen
  | shutdown => exact absurd rfl hshutdown
  | panelData act req files dirs =>
    exact scanScoped_served (by exact rfl) (panelBody_told B files dirs a.dirSigAlgo) (fun _ => ⟨rfl, rfl⟩)
      fun _ => rfl
  | groupOpen act req id offset limit =>
    exact scanScoped_served (by exact rfl) (fromSnapshot_told B _) (fun _ => ⟨rfl, rfl⟩) fun _ => rfl
  | groupCount act req id =>
    exact scanScoped_served (by exact rfl) (fromSnapshot_told B _) (fun _ => ⟨rfl, rfl⟩) fun _ => rfl
  | fileInfo act req path =>
    exact scanScoped_served (by exact rfl) (fun c scanId => (fromSnapshot_told B _ c scanId).mapError
      fun _ => pathMismatch_membershipToMiss) (fun _ => ⟨rfl, rfl⟩) fun _ => rfl
  | dirGroupAt act req dir =>
    exact scanScoped_served (by exact rfl) (fun c scanId => (fromSnapshot_told B _ c scanId).mapError
      fun _ => pathMismatch_membershipToMiss) (fun _ => ⟨rfl, rfl⟩) fun _ => rfl
  | openDirGroup act req signature =>
    exact scanScoped_served (by exact rfl) (fun c scanId => (probed_told B c _).mapError
      fun _ => pathMismatch_appToMiss) (fun _ => ⟨rfl, rfl⟩) fun _ => rfl
  | markedCount act req =>
    exact scanScoped_served (by exact rfl) (fun c scanId => (probed_told B c _).mapError
      fun _ => pathMismatch_appToMiss) (fun _ => ⟨rfl, rfl⟩) fun _ => rfl
  | setMarks act req entries =>
    exact markScoped_served (by exact rfl) (fun c scanId => (askAs_told B _).bind fun _ => Talk.Tells.pure _)
      fun _ => ⟨rfl, rfl⟩
  | clearMarks act req =>
    exact markScoped_served (by exact rfl) (fun c scanId => (askAs_told B _).bind fun _ => Talk.Tells.pure _)
      fun _ => ⟨rfl, rfl⟩
  | autoSelect act req cancel => exact autoSelect_served
  | buildPlan act req requested datasets reflinkSafe => exact buildPlan_served
  | reconcileAfterBatch act req spent =>
    exact scanScoped_served (by exact rfl) (fun c scanId => (probed_told B c _).mapError
      fun _ => pathMismatch_appToMiss) (fun _ => ⟨rfl, rfl⟩) fun _ => rfl
  | latestScan act req =>
    exact connectionScoped_served rfl (by exact rfl) (fun c => probed_told B c _) (fun _ => ⟨rfl, rfl⟩)
      fun _ => rfl
  | coveringScan act req cwd =>
    exact connectionScoped_served rfl (by exact rfl) (fun c => probed_told B c _) (fun _ => ⟨rfl, rfl, rfl⟩)
      fun _ => rfl
  | cacheHash act req device inode size mtime digest =>
    exact connectionScoped_served rfl (by exact rfl) (fun c => probed_told B c _) (fun _ => ⟨rfl, rfl⟩)
      fun _ => rfl

/-- **The closing path**: one refusal of the request's own kind, no call, nothing changed. -/
theorem refuseClosing_replied (request : BrowseRequest) (hshutdown : request ≠ .shutdown)
    (a : Actor σ δ) : ∃ e, Replied request a (a.refuseClosing request) [] e ∧
      e.event.refused = true ∧ (a.refuseClosing request).slot = a.slot ∧
      (a.refuseClosing request).active = a.active ∧
      ∀ act req failure, e.event = .openFinished act req (.error failure) → failure = .closing := by
  have hevent : ∀ ev : BrowseEvent δ, ev.answers request → ev.refused = true →
      (∀ act req failure, ev = .openFinished act req (.error failure) → failure = .closing) →
      ∃ e, Replied request a (a.event ev) [] e ∧ e.event.refused = true ∧
        (a.event ev).slot = a.slot ∧ (a.event ev).active = a.active ∧
        ∀ act req failure, e.event = .openFinished act req (.error failure) → failure = .closing :=
    fun ev hanswers hrefused hclosing =>
      ⟨_, (Talked.refl a).replied hanswers, hrefused, rfl, rfl, hclosing⟩
  cases request with
  | shutdown => exact absurd rfl hshutdown
  | coveringScan act req cwd =>
    exact hevent _ ⟨rfl, rfl, rfl⟩ rfl (by
      intro _ _ _ h
      cases h)
  | _ =>
    exact hevent _ ⟨rfl, rfl⟩ rfl (by
      intro _ _ _ h
      cases h <;> rfl)

/-! ## Every life of the actor -/

variable (B)

/-- A state the actor can be in: requests in any order, closing or not, over a store that answers
    as it likes and changes as it likes between two requests. -/
inductive Reach (role : BrowseRole) : Actor σ δ → Prop where
  | spawn (store : σ) : Reach role (Actor.spawn role store)
  | dispatch {a : Actor σ δ} (closing : Bool) (request : BrowseRequest) (h : Reach role a) :
      Reach role (a.dispatch B closing request)
  | elsewhere {a : Actor σ δ} (store : σ) (h : Reach role a) :
      Reach role { a with session := { a.session with store := store } }

variable {B}

/-- An installed scan stands on an open connection. -/
def InstalledOpen (a : Actor σ δ) : Prop := a.active ≠ none → ∃ c, a.slot = .open c

theorem Poisoned.installedOpen {a : Actor σ δ} (h : a.Poisoned) : InstalledOpen a :=
  fun hactive => absurd h.2 hactive

theorem dispatch_installedOpen {a : Actor σ δ} (h : InstalledOpen a) (closing : Bool)
    (request : BrowseRequest) : InstalledOpen (a.dispatch B closing request) := by
  by_cases hshutdown : request = .shutdown
  · subst hshutdown
    cases closing <;> exact h
  cases closing with
  | true =>
    obtain ⟨e, -, -, hslot, hactive, -⟩ := refuseClosing_replied request hshutdown a
    intro hne
    show ∃ c, (a.refuseClosing request).slot = .open c
    rw [hslot]
    exact h (hactive ▸ hne)
  | false =>
    cases hopen : request.isOpen with
    | false =>
      obtain ⟨new, e, hserved⟩ := handle_served (B := B) request hopen hshutdown a
      rcases hserved.kept with ⟨hslot, hactive⟩ | hpoisoned
      · intro hne
        rcases hslot with hslot | ⟨-, hslot⟩
        · show ∃ c, (a.handle B request).slot = .open c
          rw [hslot]
          exact h (hactive ▸ hne)
        · exact hslot
      · exact hpoisoned.installedOpen
    | true =>
      cases request with
      | «open» act req scanId =>
        obtain ⟨probe, rest, e, hopens⟩ := openScan_opens (B := B) act req scanId a
        rcases hopens.outcome with ⟨_, c, _, _, hslot, -⟩ | ⟨_, -, hfailed⟩
        · exact fun _ => ⟨c, hslot⟩
        · rcases hfailed with ⟨-, hpoisoned⟩ | ⟨-, -, ⟨hslot, hactive⟩ | ⟨-, hactive⟩⟩
          · exact hpoisoned.installedOpen
          · intro hne
            show ∃ c, (a.openScan B act req scanId).slot = .open c
            rw [hslot]
            exact h (hactive ▸ hne)
          · exact fun hne => absurd hactive hne
      | _ => cases hopen

theorem Reach.installed_open {role : BrowseRole} {a : Actor σ δ} (h : Reach B role a) :
    InstalledOpen a := by
  induction h with
  | spawn store => exact fun hne => absurd rfl hne
  | dispatch closing request _ ih => exact dispatch_installedOpen ih closing request
  | elsewhere store _ ih => exact ih

/-! ## The contract -/

/-- What one dispatch keeps: `new` are its calls, `e` the event that left. -/
structure Contract (B : Backend σ δ) (closing : Bool) (request : BrowseRequest)
    (a a' : Actor σ δ) (new : List Call) (e : Emission δ) : Prop
    extends Replied request a a' new e where
  /-- what a gate refuses asks the store nothing: at most a connection was tried where there was
      none yet -/
  gated : closing = false → ∀ miss, gate B request a = .error miss → e.event.refused = true ∧
    ∀ c ∈ new, c.opening = true ∧ request.connectionScoped = true ∧ a.slot = .absent
  closed : closing = true → e.event.refused = true ∧ new = []
  /-- a request that was told of a replaced database is answered by a poisoned actor -/
  reported : request.isOpen = false → (∃ c ∈ new, c.Reported) →
    (∃ detail, e.slot = .poisoned detail) ∧ e.active = none
  /-- an `Open` may recover from what the reuse check of an open connection was told, and from
      nothing else -/
  openReported : request.isOpen = true → ∃ probe rest, new = probe ++ rest ∧ probe.length ≤ 1 ∧
    (probe ≠ [] → ∃ c, a.slot = .open c) ∧
    ((∃ c ∈ rest, c.Reported) → (∃ detail, e.slot = .poisoned detail) ∧ e.active = none) ∧
    ((∃ c ∈ probe, c.Reported) → (∃ detail, e.slot = .poisoned detail) ∧ e.active = none ∨
      e.event.refused = false)
  whilePoisoned : (∃ detail, a.slot = .poisoned detail) → request.isOpen = false →
    e.event.refused = true ∧ new = [] ∧ ∃ detail, a'.slot = .poisoned detail
  recovered : (∃ detail, a.slot = .poisoned detail) → (∀ detail, a'.slot ≠ .poisoned detail) →
    request.isOpen = true ∧ e.event.refused = false
  /-- a failed `Open` keeps everything or installs nothing -/
  openFailed : ∀ act req failure, e.event = .openFinished act req (.error failure) →
    (a'.slot = a.slot ∧ a'.active = a.active ∨ a'.active = none) ∧
    (a.active ≠ none → ((∃ detail, failure = .pathChanged detail) ↔ a'.active = none) ∧
      (a'.active ≠ none → a'.slot = a.slot ∧ a'.active = a.active))

/-- The poisoned slot refuses every request but `Open`, without a call. -/
theorem gate_poisoned {request : BrowseRequest} {a : Actor σ δ} (hopen : request.isOpen = false)
    (hshutdown : request ≠ .shutdown) {detail : String} (hslot : a.slot = .poisoned detail) :
    gate B request a = .error (.pathChanged detail) := by
  have hscan : ∀ act write, a.scanGate act write = .error (.pathChanged detail) := by
    intro act write
    unfold scanGate
    rw [hslot]
  have hconnection : ∀ write, (a.connectionGate B write).1 = .error (.pathChanged detail) := by
    intro write
    unfold connectionGate
    rw [hslot]
  unfold gate
  rw [if_neg (by simp [hopen])]
  split
  · exact hconnection _
  · cases hact : request.act with
    | some act =>
      dsimp only
      rw [hscan]
      rfl
    | none => cases request <;> first | exact absurd rfl hshutdown | cases hact

theorem openFinished_answers {ev : BrowseEvent δ} {request : BrowseRequest} {act : Activation}
    {req : RequestId} {r : Except BrowseOpenFailure (OpenedBrowse δ)} (hanswers : ev.answers request)
    (hev : ev = .openFinished act req r) : request.isOpen = true := by
  subst hev
  cases request <;> first | rfl | exact hanswers.elim

theorem Served.contract {request : BrowseRequest} {a a' : Actor σ δ} {new : List Call}
    {e : Emission δ} (h : Served B request a a' new e) (hopen : request.isOpen = false)
    (hshutdown : request ≠ .shutdown) : Contract B false request a a' new e := by
  have hpoisoned : (∃ detail, a.slot = .poisoned detail) → e.event.refused = true ∧ new = [] ∧
      ∃ detail, a'.slot = .poisoned detail := by
    rintro ⟨detail, hslot⟩
    obtain ⟨hrefused, hopening⟩ := h.gated _ (gate_poisoned hopen hshutdown hslot)
    refine ⟨hrefused, ?_, ?_⟩
    · rw [List.eq_nil_iff_forall_not_mem]
      intro c hc
      have habsent := (hopening c hc).2.2
      rw [hslot] at habsent
      cases habsent
    · rcases h.kept with ⟨hkept | ⟨habsent, -⟩, -⟩ | hp
      · exact ⟨detail, hkept.trans hslot⟩
      · rw [hslot] at habsent
        cases habsent
      · exact hp.1
  refine ⟨h.toReplied, fun _ => h.gated, fun hc => absurd hc Bool.false_ne_true, ?_, ?_, ?_, ?_, ?_⟩
  · intro _ hc
    rw [h.slot, h.active]
    exact h.reported hc
  · intro ho
    rw [hopen] at ho
    cases ho
  · exact fun hp _ => hpoisoned hp
  · intro hp hnot
    obtain ⟨-, -, detail, hslot⟩ := hpoisoned hp
    exact absurd hslot (hnot detail)
  · intro act req failure hev
    have ho := openFinished_answers h.answers hev
    rw [hopen] at ho
    cases ho

theorem Opens.contract {act : Activation} {req : RequestId} {scanId : Int} {a a' : Actor σ δ}
    {probe rest : List Call} {e : Emission δ} (h : Opens act req scanId a a' probe rest e)
    (hinstalled : InstalledOpen a) :
    Contract B false (.open act req scanId) a a' (probe ++ rest) e := by
  refine ⟨h.toReplied, ?_, fun hc => absurd hc Bool.false_ne_true, fun ho => Bool.noConfusion ho,
    fun _ => ?_, fun _ ho => Bool.noConfusion ho, ?_, ?_⟩
  · intro _ miss hgate
    cases hgate
  · refine ⟨probe, rest, rfl, h.probe_length, h.probe_held, ?_, ?_⟩
    · rw [h.slot, h.active]
      exact h.reported
    · intro hc
      rcases h.probed hc with hp | ⟨payload, hev⟩
      · left
        rw [h.slot, h.active]
        exact hp
      · right
        rw [hev]
        rfl
  · rintro ⟨detail, hslot⟩ hnot
    refine ⟨rfl, ?_⟩
    rcases h.outcome with ⟨payload, _, _, hev, -⟩ | ⟨failure, -, ⟨-, hp⟩ | ⟨-, hheld, -⟩⟩
    · rw [hev]
      rfl
    · obtain ⟨d, hd⟩ := hp.1
      exact absurd hd (hnot d)
    · exact absurd hslot (hheld detail)
  · intro act' req' failure hev
    rcases h.outcome with ⟨payload, _, _, hok, -⟩ | ⟨failure', herror, hfailed⟩
    · rw [hok] at hev
      cases hev
    · rw [herror] at hev
      cases hev
      rcases hfailed with ⟨hchanged, hp⟩ | ⟨hne, -, ⟨hslot, hactive⟩ | ⟨habsent, hactive⟩⟩
      · exact ⟨.inr hp.2, fun _ => ⟨⟨fun _ => hp.2, fun _ => hchanged⟩, fun hn => absurd hp.2 hn⟩⟩
      · refine ⟨.inl ⟨hslot, hactive⟩, fun hn => ⟨⟨?_, ?_⟩, fun _ => ⟨hslot, hactive⟩⟩⟩
        · rintro ⟨detail, hd⟩
          exact absurd hd (hne detail)
        · intro hnone
          exact absurd (hactive.symm.trans hnone) hn
      · refine ⟨.inr hactive, fun hn => ?_⟩
        obtain ⟨c, hc⟩ := hinstalled hn
        rw [habsent] at hc
        cases hc

/-- **The contract of the browsing actor**, in every state it can reach and for every request. -/
theorem actor_contract (B : Backend σ δ) {role : BrowseRole} {a : Actor σ δ} (h : Reach B role a) :
    (a.active ≠ none → ∃ c, a.slot = .open c) ∧
      ∀ closing request, request ≠ .shutdown →
        ∃ new e, Contract B closing request a (a.dispatch B closing request) new e := by
  refine ⟨h.installed_open, fun closing request hshutdown => ?_⟩
  cases closing with
  | true =>
    obtain ⟨e, hreplied, hrefused, hslot, hactive, hclosing⟩ :=
      refuseClosing_replied request hshutdown a
    refine ⟨[], e, hreplied, fun hc => Bool.noConfusion hc, fun _ => ⟨hrefused, rfl⟩,
      fun _ => not_reported_nil, fun _ => ⟨[], [], rfl, by simp, fun hne => absurd rfl hne,
        not_reported_nil, not_reported_nil⟩, ?_, ?_, ?_⟩
    · rintro ⟨detail, hpoisoned⟩ -
      exact ⟨hrefused, rfl, detail, hslot.trans hpoisoned⟩
    · rintro ⟨detail, hpoisoned⟩ hnot
      exact absurd (hslot.trans hpoisoned) (hnot detail)
    · intro act req failure hev
      refine ⟨.inl ⟨hslot, hactive⟩, fun hn => ⟨⟨?_, ?_⟩, fun _ => ⟨hslot, hactive⟩⟩⟩
      · rintro ⟨detail, hd⟩
        rw [hclosing act req failure hev] at hd
        cases hd
      · intro hnone
        exact absurd (hactive.symm.trans hnone) hn
  | false =>
    cases hopen : request.isOpen with
    | false =>
      obtain ⟨new, e, hserved⟩ := handle_served (B := B) request hopen hshutdown a
      exact ⟨new, e, hserved.contract hopen hshutdown⟩
    | true =>
      cases request with
      | «open» act req scanId =>
        obtain ⟨probe, rest, e, hopens⟩ := openScan_opens (B := B) act req scanId a
        exact ⟨probe ++ rest, e, hopens.contract h.installed_open⟩
      | _ => cases hopen

/-! ## A store that is replaced -/

/-- Which probe finds the database replaced, or that there is none to open. -/
inductive Replaced where
  | no
  | identity
  | snapshot
  | unopened

/-- A store with one empty scan, where it opens; after the one probe that finds it replaced it
    answers again. -/
def sampleBackend : Backend Replaced Unit where
  answer q s :=
    match q, s with
    | .ensureCurrentPath _, .identity => (.error (.pathChanged "dedcom.db" "replaced"), .no)
    | .membershipSnapshot _ _, .snapshot => (.error (.reopenRequired "replaced"), .no)
    | .connect _, .unopened => (.error (.other "unable to open database file"), .unopened)
    | .connect _, s => (.ok 0, s)
    | .ensureCurrentPath _, s => (.ok (), s)
    | .membershipSnapshot _ _, s => (.ok .derived, s)
    | .unknownCandidates _, s => (.ok none, s)
    | .summaries _, s => (.ok ⟨[], [], ()⟩, s)
    | .scanConfig _, s => (.ok .old, s)
    | .scanStatus _, s => (.ok (), s)
    | .scanSummary _, s => (.ok (), s)
    | .scanCreatedAt _, s => (.ok (), s)
    | .markedCount _, s => (.ok (), s)
    | .dirGroupSummaries _, s => (.ok (), s)
    | .panelFiles _ _, s => (.ok (), s)
    | .panelMarks _ _, s => (.ok (), s)
    | .groupPage _ _ _ _, s => (.ok (), s)
    | .groupMemberCount _ _, s => (.ok (), s)
    | .group _ _, s => (.ok [], s)
    | .fileInfo _ _, s => (.ok (), s)
    | .dirGroupAt _ _, s => (.ok (), s)
    | .attributedDirGroup _ _ _, s => (.ok (), s)
    | .scanMarkedCount _ _, s => (.ok (), s)
    | .dirAggregates _ _ _ _, s => (.ok (), s)
    | .latestScanId _, s => (.ok (), s)
    | .latestScanCovering _ _, s => (.ok (), s)
    | .prepareBrowseSummaries _ _, s => (.ok (), s)
    | .saveMarksSettled _ _ _, s => (.ok [], s)
    | .clearMarksSettled _ _, s => (.ok 0, s)
    | .reconcileMarks _ _ _, s => (.ok (), s)
    | .upsertHash _ _ _ _ _ _, s => (.ok (), s)
    | .planFromSnapshot _ _ _, s => (.error .noMarks, s)
  stop _ s := (false, s)
  unrunnable _ _ _ s := (.default, s)
  debugOpen _ := ""
  debugWrite _ := ""

/-- An operator's actor with scan 7 installed, over a store that is replaced. -/
def sampleActor (replaced : Replaced) : Actor Replaced Unit :=
  let a := (Actor.spawn .operator Replaced.no).dispatch sampleBackend false (.open 1 1 7)
  { a with session := { a.session with store := replaced } }

theorem sampleActor_reach (replaced : Replaced) :
    Reach sampleBackend .operator (sampleActor replaced) :=
  (((Reach.spawn .no).dispatch false (.open 1 1 7)).elsewhere replaced)

/-- An actor that has opened nothing yet, over a database that does not open. -/
def unopenedActor : Actor Replaced Unit := Actor.spawn .operator .unopened

theorem actor_contract_sample :
    ∃ new e, Contract sampleBackend false (.markedCount 1 2) (sampleActor .identity)
      ((sampleActor .identity).dispatch sampleBackend false (.markedCount 1 2)) new e :=
  (actor_contract sampleBackend (sampleActor_reach .identity)).2 false (.markedCount 1 2)
    (by simp)

/-- **Not every report poisons**: an `Open` whose reuse check was told of the replacement installs
    its scan; and the mismatch that the legacy preparation or the plan builder meets in a snapshot
    of its own is text before it reaches the actor. **Not every refused request is silent**: the
    gate of a connection's request opens the connection, and refuses where that fails. -/
theorem not_actor_contract :
    (∃ new e, Replied (.open 2 2 7) (sampleActor .identity)
        ((sampleActor .identity).dispatch sampleBackend false (.open 2 2 7)) new e ∧
      (∃ c ∈ new, c.mismatch = some "replaced") ∧ e.active = some ⟨7, 2, .old⟩) ∧
    (∃ new e, Replied (.open 2 2 7) (sampleActor .snapshot)
        ((sampleActor .snapshot).dispatch sampleBackend false (.open 2 2 7)) new e ∧
      (∃ c ∈ new, c.mismatch = some "replaced") ∧ e.active = some ⟨7, 1, .old⟩) ∧
    (∃ new e, Replied (.buildPlan 1 2 [] [] false) (sampleActor .snapshot)
        ((sampleActor .snapshot).dispatch sampleBackend false (.buildPlan 1 2 [] [] false)) new e ∧
      (∃ c ∈ new, c.mismatch = some "replaced") ∧ e.active = some ⟨7, 1, .old⟩) ∧
    ∃ miss new e, gate sampleBackend (.latestScan 1 2) unopenedActor = .error miss ∧
      Replied (.latestScan 1 2) unopenedActor
        (unopenedActor.dispatch sampleBackend false (.latestScan 1 2)) new e ∧
      e.event.refused = true ∧ new ≠ [] := by
  refine ⟨⟨_, _, ⟨rfl, ⟨rfl, rfl⟩, rfl, rfl, rfl, rfl⟩, ?_, rfl⟩,
    ⟨_, _, ⟨rfl, ⟨rfl, rfl⟩, rfl, rfl, rfl, rfl⟩, ?_, rfl⟩,
    ⟨_, _, ⟨rfl, ⟨rfl, rfl⟩, rfl, rfl, rfl, rfl⟩, ?_, rfl⟩,
    ⟨_, _, _, rfl, ⟨rfl, ⟨rfl, rfl⟩, rfl, rfl, rfl, rfl⟩, rfl, List.cons_ne_nil _ _⟩⟩
  · exact ⟨_, .head _, rfl⟩
  · exact ⟨_, .tail _ (.head _), rfl⟩
  · exact ⟨_, .tail _ (.head _), rfl⟩

end Actor

end Browse

end DedupCommando
