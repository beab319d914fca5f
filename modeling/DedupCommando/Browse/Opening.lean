import DedupCommando.Browse.Replies

/-!
# The `Open` arm

* `candidateOf_told`, `candidateOf_fails` — a candidate shows a replaced database, and no typed
  failure of it is one.
* `bracket_spec`, `reuseOrOpen_spec`, `buildCandidate_spec` — the three steps.
* `openScan_opens` — what one `Open` leaves: an installed scan, a refusal that kept everything,
  or a poisoned actor.
-/

set_option autoImplicit false

namespace DedupCommando

namespace Browse

namespace Actor

variable {σ δ ε α : Type} (B : Backend σ δ)

/-! ## The candidate -/

def CandidateFail.Mismatched : CandidateFail → Prop
  | .mismatch _ => True
  | .typed _ => False

/-- A typed refusal is never the one of a replaced database. -/
def CandidateFail.Ordinary : CandidateFail → Prop
  | .mismatch _ => True
  | .typed failure => ∀ detail, failure ≠ .pathChanged detail

theorem classifyApp_mismatched (into : String → BrowseOpenFailure) {e : StoreError}
    (h : Mismatched e) : (classifyApp into e).Mismatched := by
  cases e with
  | pathChanged path detail => trivial
  | other text => cases h

theorem classifyMiss_mismatched (into : SnapshotMiss → BrowseOpenFailure) {e : SnapshotMiss}
    (h : Mismatched e) : (classifyMiss into e).Mismatched := by
  cases e with
  | reopenRequired detail => trivial
  | answered miss => cases h

theorem classifyApp_ordinary {into : String → BrowseOpenFailure}
    (h : ∀ text detail, into text ≠ .pathChanged detail) (e : StoreError) :
    (classifyApp into e).Ordinary := by
  cases e with
  | pathChanged path detail => trivial
  | other text => exact h text

theorem classifyMiss_ordinary {into : SnapshotMiss → BrowseOpenFailure}
    (h : ∀ miss detail, into miss ≠ .pathChanged detail) (e : SnapshotMiss) :
    (classifyMiss into e).Ordinary := by
  rcases e with detail | (_ | _ | _ | _ | _ | _)
  · trivial
  · exact fun _ he => by cases he
  all_goals exact h _

theorem prepareLegacyForViewing_told (c : Connection) (scanId : Int) :
    Told Mismatched (Guarded.prepareLegacyForViewing B c scanId) := by
  apply Talk.Tells.bind
  · exact (askAs_untold B (by decide) (fun _ => False) _).mapError fun _ he => he.elim
  intro mode
  by_cases hmode : mode = .unknown
  · rw [if_pos hmode]
    exact askAs_told B _
  · rw [if_neg hmode]
    apply Talk.Tells.bind
    · exact (askAs_untold B (by decide) (fun _ => False) _).mapError fun _ he => he.elim
    intro summaries
    cases summaries.inconsistent with
    | nil => exact Talk.Tells.pure _
    | cons id ids => exact Talk.Tells.fail _

theorem prepareStep_told (role : BrowseRole) (c : Connection) (scanId : Int) :
    Told CandidateFail.Mismatched (prepareStep B role c scanId) := by
  unfold prepareStep
  split
  · exact (prepareLegacyForViewing_told B c scanId).mapError fun _ he =>
      classifyApp_mismatched _ he
  · exact Talk.Tells.pure _

theorem presentationOf_told (c : Connection) (mode : MembershipMode) :
    Told CandidateFail.Mismatched (presentationOf B c mode) := by
  unfold presentationOf
  split
  · apply Talk.Tells.bind
    · exact (askAs_told B _).mapError fun _ he => classifyMiss_mismatched _ he
    intro candidates
    cases candidates with
    | some view => exact Talk.Tells.pure _
    | none => exact Talk.Tells.fail _
  · apply Talk.Tells.bind
    · exact (askAs_told B _).mapError fun _ he => classifyMiss_mismatched _ he
    · exact fun _ => Talk.Tells.pure _

theorem candidateOf_told (role : BrowseRole) (c : Connection) (scanId : Int) :
    Told CandidateFail.Mismatched (candidateOf B role c scanId) := by
  have happ : ∀ {α : Type} (into : String → BrowseOpenFailure) (q : Ask δ StoreError α),
      Told CandidateFail.Mismatched ((askAs B .actor q).mapError (classifyApp into)) :=
    fun into q => (askAs_told B q).mapError fun _ he => classifyApp_mismatched into he
  apply (prepareStep_told B role c scanId).bind
  intro _
  apply Talk.Tells.bind
  · exact (askAs_told B _).mapError fun _ he => classifyMiss_mismatched _ he
  intro mode
  apply (presentationOf_told B c mode).bind
  intro presentation
  apply (happ _ _).bind
  intro algo
  apply (happ _ _).bind
  intro status
  apply (happ _ _).bind
  intro summary
  apply (happ _ _).bind
  intro createdAt
  apply (happ _ _).bind
  intro marked
  apply (happ _ _).bind
  intro dirGroups
  exact Talk.Tells.pure _

theorem candidateOf_fails (role : BrowseRole) (c : Connection) (scanId : Int) :
    (candidateOf B role c scanId).Fails CandidateFail.Ordinary := by
  have happ : ∀ {α : Type} {into : String → BrowseOpenFailure} (q : Ask δ StoreError α),
      (∀ text detail, into text ≠ .pathChanged detail) →
      ((askAs B .actor q).mapError (classifyApp into)).Fails CandidateFail.Ordinary :=
    fun q hinto => Talk.Fails.mapError (classifyApp_ordinary hinto)
  apply Talk.Fails.bind
  · unfold prepareStep
    split
    · exact Talk.Fails.mapError (classifyApp_ordinary fun _ _ he => by cases he)
    · exact Talk.Fails.pure _
  intro _
  apply Talk.Fails.bind
  · exact Talk.Fails.mapError (classifyMiss_ordinary fun _ _ he => by cases he)
  intro mode
  apply Talk.Fails.bind
  · unfold presentationOf
    split
    · apply Talk.Fails.bind
      · exact Talk.Fails.mapError (classifyMiss_ordinary fun _ _ he => by cases he)
      intro candidates
      cases candidates with
      | some view => exact Talk.Fails.pure _
      | none => exact Talk.Fails.fail fun _ he => by cases he
    · apply Talk.Fails.bind
      · exact Talk.Fails.mapError (classifyMiss_ordinary fun _ _ he => by cases he)
      · exact fun _ => Talk.Fails.pure _
  intro presentation
  apply (happ _ fun _ _ he => by cases he).bind
  intro algo
  apply (happ _ fun _ _ he => by cases he).bind
  intro status
  apply (happ _ fun _ _ he => by cases he).bind
  intro summary
  apply (happ _ fun _ _ he => by cases he).bind
  intro createdAt
  apply (happ _ fun _ _ he => by cases he).bind
  intro marked
  apply (happ _ fun _ _ he => by cases he).bind
  intro dirGroups
  exact Talk.Fails.pure _

/-! ## The steps -/

/-- The parts of the actor no step of `Open` touches, and the calls of the steps. -/
structure Talked (a b : Actor σ δ) (new : List Call) : Prop where
  role : b.role = a.role
  emitted : b.emitted = a.emitted
  calls : b.session.calls = a.session.calls ++ new

theorem Talked.refl (a : Actor σ δ) : Talked a a [] := ⟨rfl, rfl, (List.append_nil _).symm⟩

theorem Talked.trans {a b b' : Actor σ δ} {new new' : List Call} (h : Talked a b new)
    (h' : Talked b b' new') : Talked a b' (new ++ new') :=
  ⟨h'.role.trans h.role, h'.emitted.trans h.emitted, by
    rw [h'.calls, h.calls, List.append_assoc]⟩

theorem Talked.replied {request : BrowseRequest} {a b : Actor σ δ} {new : List Call}
    (h : Talked a b new) {ev : BrowseEvent δ} (hanswers : ev.answers request) :
    Replied request a (b.event ev) new ⟨ev, b.slot, b.active⟩ := by
  refine ⟨?_, hanswers, h.calls, h.role, rfl, rfl⟩
  show b.emitted ++ _ = _
  rw [h.emitted]

/-- The reuse check changes nothing, and retains what it was told. -/
structure Bracketed (a b : Actor σ δ) (retained : Option String) (probe : List Call) : Prop
    extends Talked a b probe where
  slot : b.slot = a.slot
  active : b.active = a.active
  probe_length : probe.length ≤ 1
  probe_held : probe ≠ [] → ∃ c, a.slot = .open c
  reported : (∃ c ∈ probe, c.Reported) → retained.isSome = true
  poisoned : ∀ detail, a.slot = .poisoned detail → retained.isSome = true
  absent : a.slot = .absent → retained = none

variable {B}

theorem bracket_spec (a : Actor σ δ) :
    ∃ probe, Bracketed a (a.bracket B).2 (a.bracket B).1 probe := by
  unfold bracket
  cases hslot : a.slot with
  | poisoned detail =>
    refine ⟨[], ⟨Talked.refl a, rfl, rfl, by simp, fun h => absurd rfl h, not_reported_nil,
      fun _ _ => rfl, ?_⟩⟩
    intro h
    rw [hslot] at h
    cases h
  | absent =>
    refine ⟨[], ⟨Talked.refl a, rfl, rfl, by simp, fun h => absurd rfl h, not_reported_nil, ?_,
      fun _ => rfl⟩⟩
    intro _ h
    rw [hslot] at h
    cases h
  | «open» c =>
    have hnot : ∀ detail, a.slot ≠ .poisoned detail := by
      intro detail h
      rw [hslot] at h
      cases h
    have hheld : a.slot ≠ .absent := by
      intro h
      rw [hslot] at h
      cases h
    have htold : Told Mismatched (Guarded.identityCheck B c) := askAs_told B _
    obtain ⟨new, hreached, hbad⟩ := talk_reached htold a
    have hlength : new.length ≤ 1 := by
      have hcalls : a.session.calls ++ _ = a.session.calls ++ new := hreached.calls
      rw [← List.append_cancel_left hcalls]
      exact le_refl 1
    refine ⟨new, ?_⟩
    dsimp only
    cases htalk : a.talk (Guarded.identityCheck B c) with
    | mk r b =>
      have hb : b.slot = a.slot := (congrArg (fun x => (Prod.snd x).slot) htalk).symm
      rw [htalk] at hreached hbad
      have htalked : Talked a b new := ⟨hreached.role, hreached.emitted, hreached.calls⟩
      cases r with
      | ok u =>
        refine ⟨htalked, hb, hreached.active, hlength, fun _ => ⟨c, hslot⟩, ?_,
          fun d h => absurd h (hnot d), fun h => absurd h hheld⟩
        intro hc
        obtain ⟨_, he, -⟩ := hbad hc
        cases he
      | error err =>
        exact ⟨htalked, hb, hreached.active, hlength, fun _ => ⟨c, hslot⟩, fun _ => rfl,
          fun d h => absurd h (hnot d), fun h => absurd h hheld⟩

/-- Either the healthy connection was reused, or a new one was opened over nothing. -/
structure Connected (a b : Actor σ δ) (retained : Option String) (new : List Call) : Prop
    extends Talked a b new where
  slot : ∃ c, b.slot = .open c
  reported : ¬ ∃ c ∈ new, c.Reported
  kept : retained = none → b.slot = a.slot ∧ b.active = a.active ∨
    a.slot = .absent ∧ b.active = none
  discarded : retained ≠ none → b.active = none

/-- No connection: an ordinary failure over an empty slot, or a poisoned actor. -/
structure NotConnected (a b : Actor σ δ) (retained : Option String)
    (failure : BrowseOpenFailure) (new : List Call) : Prop extends Talked a b new where
  outcome : (∃ detail, failure = .pathChanged detail) ∧ b.Poisoned ∨
    (∀ detail, failure ≠ .pathChanged detail) ∧ retained = none ∧ a.slot = .absent ∧
      b.slot = .absent ∧ b.active = none
  reported : (∃ c ∈ new, c.Reported) → b.Poisoned

theorem reuseOrOpen_spec {a : Actor σ δ} {retained : Option String}
    (hpoisoned : ∀ detail, a.slot = .poisoned detail → retained.isSome = true) :
    ∃ new, match a.reuseOrOpen B retained with
      | (.ok (), b) => Connected a b retained new
      | (.error failure, b) => NotConnected a b retained failure new := by
  have hreopen : (retained = none → a.slot = .absent) → ∃ new, match a.reopen B retained with
      | (.ok (), b) => Connected a b retained new
      | (.error failure, b) => NotConnected a b retained failure new := by
    intro habsent
    obtain ⟨call, -, hcalls, hbad⟩ := open_calls (B := B) a.role a.session
    refine ⟨[call], ?_⟩
    unfold reopen talk
    dsimp only
    cases hexec : (Guarded.open B a.role).exec a.session with
    | mk r s =>
      rw [hexec] at hcalls hbad
      cases r with
      | ok c =>
        refine ⟨⟨rfl, rfl, hcalls⟩, ⟨c, rfl⟩, ?_, fun h => .inr ⟨habsent h, rfl⟩, fun _ => rfl⟩
        rintro ⟨x, hx, hreported⟩
        obtain ⟨_, he, -⟩ := hbad (List.mem_singleton.1 hx ▸ hreported)
        cases he
      | error err =>
        dsimp only
        cases hmismatch : pathMismatch err with
        | some detail =>
          exact ⟨⟨rfl, rfl, hcalls⟩, .inl ⟨⟨detail, rfl⟩, poison_poisoned _ _⟩,
            fun _ => poison_poisoned _ _⟩
        | none =>
          cases retained with
          | some mismatch =>
            exact ⟨⟨rfl, rfl, hcalls⟩, .inl ⟨⟨_, rfl⟩, poison_poisoned _ _⟩,
              fun _ => poison_poisoned _ _⟩
          | none =>
            refine ⟨⟨rfl, rfl, hcalls⟩, .inr ⟨fun _ => by simp, rfl, habsent rfl, rfl, rfl⟩,
              ?_⟩
            rintro ⟨x, hx, hreported⟩
            obtain ⟨e, he, hshows⟩ := hbad (List.mem_singleton.1 hx ▸ hreported)
            cases he
            rw [Mismatched, hmismatch] at hshows
            cases hshows
  unfold reuseOrOpen
  cases hslot : a.slot with
  | poisoned detail =>
    apply hreopen
    intro hnone
    have hsome := hpoisoned detail hslot
    rw [hnone] at hsome
    cases hsome
  | absent => exact hreopen fun _ => hslot
  | «open» c =>
    cases retained with
    | some mismatch =>
      apply hreopen
      intro h
      cases h
    | none =>
      exact ⟨[], ⟨Talked.refl a, ⟨c, hslot⟩, not_reported_nil, fun _ => .inl ⟨rfl, rfl⟩,
        fun h => absurd rfl h⟩⟩

/-- A candidate changes nothing but the store. -/
theorem buildCandidate_spec {a : Actor σ δ} (hopen : ∃ c, a.slot = .open c) (scanId : Int) :
    ∃ new, Talked a (a.buildCandidate B scanId).2 new ∧
      (a.buildCandidate B scanId).2.slot = a.slot ∧
      (a.buildCandidate B scanId).2.active = a.active ∧
      ((∃ c ∈ new, c.Reported) →
        ∃ detail, (a.buildCandidate B scanId).1 = .error (.mismatch detail)) ∧
      ∀ failure, (a.buildCandidate B scanId).1 = .error (.typed failure) →
        ∀ detail, failure ≠ .pathChanged detail := by
  obtain ⟨c, hslot⟩ := hopen
  have hbuild : a.buildCandidate B scanId = a.talk (candidateOf B a.role c scanId) := by
    unfold buildCandidate
    rw [hslot]
  rw [hbuild]
  obtain ⟨new, hreached, hbad⟩ := talk_reached (candidateOf_told B a.role c scanId) a
  refine ⟨new, ⟨rfl, rfl, hreached.calls⟩, rfl, rfl, ?_, ?_⟩
  · intro hc
    obtain ⟨e, he, hmismatch⟩ := hbad hc
    cases e with
    | typed failure => exact hmismatch.elim
    | mismatch detail => exact ⟨detail, he⟩
  · exact fun failure he => candidateOf_fails B a.role c scanId a.session _ he

/-! ## The whole arm -/

/-- What one `Open` leaves, after the calls of its reuse check and the rest of its calls. -/
structure Opens (act : Activation) (req : RequestId) (scanId : Int) (a a' : Actor σ δ)
    (probe rest : List Call) (e : Emission δ) : Prop
    extends Replied (.open act req scanId) a a' (probe ++ rest) e where
  probe_length : probe.length ≤ 1
  probe_held : probe ≠ [] → ∃ c, a.slot = .open c
  outcome : (∃ payload c algo, e.event = .openFinished act req (.ok payload) ∧
      a'.slot = .open c ∧ a'.active = some ⟨scanId, act, algo⟩) ∨
    ∃ failure, e.event = .openFinished act req (.error failure) ∧
      ((∃ detail, failure = .pathChanged detail) ∧ a'.Poisoned ∨
        (∀ detail, failure ≠ .pathChanged detail) ∧ (∀ detail, a.slot ≠ .poisoned detail) ∧
          (a'.slot = a.slot ∧ a'.active = a.active ∨ a.slot = .absent ∧ a'.active = none))
  reported : (∃ c ∈ rest, c.Reported) → a'.Poisoned
  probed : (∃ c ∈ probe, c.Reported) → a'.Poisoned ∨
    ∃ payload, e.event = .openFinished act req (.ok payload)

theorem openScan_opens (act : Activation) (req : RequestId) (scanId : Int) (a : Actor σ δ) :
    ∃ probe rest e, Opens act req scanId a (a.openScan B act req scanId) probe rest e := by
  obtain ⟨probe, hbracket⟩ := bracket_spec (B := B) a
  unfold openScan
  cases hb : a.bracket B with
  | mk retained b =>
  rw [hb] at hbracket
  have hpoisoned : ∀ detail, b.slot = .poisoned detail → retained.isSome = true := by
    intro detail h
    exact hbracket.poisoned detail (hbracket.slot ▸ h)
  have hheld : retained = none → ∀ detail, a.slot ≠ .poisoned detail := by
    intro hnone detail h
    have hsome := hbracket.poisoned detail h
    rw [hnone] at hsome
    cases hsome
  obtain ⟨new, hconnect⟩ := reuseOrOpen_spec (B := B) hpoisoned
  dsimp only
  cases hr : b.reuseOrOpen B retained with
  | mk r d =>
  rw [hr] at hconnect
  cases r with
  | error failure =>
    have hconnect : NotConnected b d retained failure new := hconnect
    refine ⟨probe, new, _, ⟨(hbracket.toTalked.trans hconnect.toTalked).replied ⟨rfl, rfl⟩,
      hbracket.probe_length, hbracket.probe_held, .inr ⟨failure, rfl, ?_⟩, hconnect.reported, ?_⟩⟩
    · rcases hconnect.outcome with h | ⟨hne, hnone, habsent, hslot, hactive⟩
      · exact .inl h
      · exact .inr ⟨hne, hheld hnone, .inr ⟨hbracket.slot ▸ habsent, hactive⟩⟩
    · intro hc
      rcases hconnect.outcome with h | ⟨-, hnone, -⟩
      · exact .inl h.2
      · have hsome := hbracket.reported hc
        rw [hnone] at hsome
        cases hsome
  | ok u =>
    have hconnect : Connected b d retained new := hconnect
    obtain ⟨new', htalked, hslot, hactive, hmismatch, hordinary⟩ :=
      buildCandidate_spec (B := B) hconnect.slot scanId
    dsimp only
    cases hbuild : d.buildCandidate B scanId with
    | mk built f =>
    rw [hbuild] at htalked hslot hactive hmismatch hordinary
    have hall := hbracket.toTalked.trans (hconnect.toTalked.trans htalked)
    have hrest : (∃ c ∈ new ++ new', c.Reported) → ∃ detail, built = .error (.mismatch detail) := by
      rintro ⟨x, hx, hreported⟩
      rcases List.mem_append.1 hx with hx | hx
      · exact absurd ⟨x, hx, hreported⟩ hconnect.reported
      · exact hmismatch ⟨x, hx, hreported⟩
    have hpoison : ∀ detail, Talked a (f.poison detail) (probe ++ (new ++ new')) := fun _ =>
      ⟨hall.role, hall.emitted, hall.calls⟩
    dsimp only
    cases built with
    | ok candidate =>
      obtain ⟨payload, algo⟩ := candidate
      obtain ⟨c, hc⟩ := hconnect.slot
      have hinstalled : Talked a { f with active := some ⟨scanId, act, algo⟩ }
          (probe ++ (new ++ new')) := ⟨hall.role, hall.emitted, hall.calls⟩
      have hanswers : (BrowseEvent.openFinished act req (.ok payload)).answers
          (.open act req scanId) := ⟨rfl, rfl⟩
      refine ⟨probe, new ++ new', _, ⟨hinstalled.replied hanswers, hbracket.probe_length,
        hbracket.probe_held, .inl ⟨payload, c, algo, rfl, hslot.trans hc, rfl⟩, ?_,
        fun _ => .inr ⟨payload, rfl⟩⟩⟩
      intro hreported
      obtain ⟨_, he⟩ := hrest hreported
      cases he
    | error fail =>
      cases fail with
      | mismatch detail =>
        exact ⟨probe, new ++ new', _, ⟨(hpoison detail).replied ⟨rfl, rfl⟩, hbracket.probe_length,
          hbracket.probe_held, .inr ⟨_, rfl, .inl ⟨⟨detail, rfl⟩, f.poison_poisoned detail⟩⟩,
          fun _ => f.poison_poisoned detail, fun _ => .inl (f.poison_poisoned detail)⟩⟩
      | typed failure =>
        cases retained with
        | some mismatch =>
          exact ⟨probe, new ++ new', _, ⟨(hpoison _).replied ⟨rfl, rfl⟩, hbracket.probe_length,
            hbracket.probe_held, .inr ⟨_, rfl, .inl ⟨⟨_, rfl⟩, f.poison_poisoned _⟩⟩,
            fun _ => f.poison_poisoned _, fun _ => .inl (f.poison_poisoned _)⟩⟩
        | none =>
          refine ⟨probe, new ++ new', _, ⟨hall.replied ⟨rfl, rfl⟩, hbracket.probe_length,
            hbracket.probe_held,
            .inr ⟨failure, rfl, .inr ⟨hordinary failure rfl, hheld rfl, ?_⟩⟩, ?_, ?_⟩⟩
          · rcases hconnect.kept rfl with ⟨hs, ha⟩ | ⟨hs, ha⟩
            · exact .inl ⟨hslot.trans (hs.trans hbracket.slot),
                hactive.trans (ha.trans hbracket.active)⟩
            · exact .inr ⟨hbracket.slot ▸ hs, hactive.trans ha⟩
          · intro hreported
            obtain ⟨_, he⟩ := hrest hreported
            cases he
          · intro hc
            have hsome := hbracket.reported hc
            cases hsome

end Actor

end Browse

end DedupCommando
