import DedupCommando.Lib.Transaction

/-!
# Work that can be cut between its transactions

A job commits a chain of transactions. The process may end in front of any of them, the store may
refuse any of them, and the job may look at a flag that is raised from outside.

* `Weather`, `Sky` — what comes over each transaction and what each look at the flag sees.
* `Job` — a computation over a store, run under a sky.
* `Job.Meets` — what a job leaves where it returns, and what it leaves wherever it is cut.
* `Job.Meets.bind`, `Job.Meets.transact` — the rules.
* `leftBy`, `leftBy_keeps` — any number of jobs one after the other.
-/

set_option autoImplicit false

/-- What comes over one transaction: nothing, a refusal by the store, or the end of the process. -/
inductive Weather (ε : Type) where
  | fair
  | refused (e : ε)
  | ended

/-- The weather of every transaction and the flag at every look, by the number of the step. -/
structure Sky (ε : Type) where
  weather : Nat → Weather ε
  raised : Nat → Bool

/-- How a job ends. -/
inductive Ended (ε α : Type) where
  | done (a : α)
  | failed (e : ε)
  | cut

/-- A computation from the number of steps taken and the store. -/
def Job (σ ε α : Type) : Type := Sky ε → Nat → σ → Ended ε α × Nat × σ

namespace Job

variable {σ ε α β : Type}

instance : Monad (Job σ ε) where
  pure a := fun _ n s => (.done a, n, s)
  bind job next := fun sky n s =>
    match job sky n s with
    | (.done a, n, s) => next a sky n s
    | (.failed e, n, s) => (.failed e, n, s)
    | (.cut, n, s) => (.cut, n, s)

/-- One transaction. -/
def transact (tx : Tx σ ε α) : Job σ ε α := fun sky n s =>
  match sky.weather n with
  | .fair =>
    match tx s with
    | (.ok a, s) => (.done a, n + 1, s)
    | (.error e, s) => (.failed e, n + 1, s)
  | .refused e => (.failed e, n + 1, s)
  | .ended => (.cut, n + 1, s)

/-- A look at the flag. -/
def look : Job σ ε Bool := fun sky n s => (.done (sky.raised n), n + 1, s)

/-- A computation beside the store, which may fail. -/
def ofExcept (r : Except ε α) : Job σ ε α := fun _ n s =>
  match r with
  | .ok a => (.done a, n, s)
  | .error e => (.failed e, n, s)

/-- A transaction that only reads. -/
def read (f : σ → Except ε α) : Job σ ε α := transact fun s => (f s, s)

/-- From a store with `P` the job returns with `Q`, or is cut and leaves `C`. -/
def Meets (P : σ → Prop) (job : Job σ ε α) (Q : α → σ → Prop) (C : σ → Prop) : Prop :=
  ∀ sky n s, P s →
    match job sky n s with
    | (.done a, _, s') => Q a s'
    | (.failed _, _, s') => C s'
    | (.cut, _, s') => C s'

namespace Meets

variable {P P' : σ → Prop} {Q Q' : α → σ → Prop} {C : σ → Prop}

theorem mono {job : Job σ ε α} (h : Meets P job Q C) (hP : ∀ s, P' s → P s)
    (hQ : ∀ a s, Q a s → Q' a s) : Meets P' job Q' C := by
  intro sky n s hs
  have := h sky n s (hP s hs)
  split <;> simp_all

theorem pure {a : α} (h : ∀ s, P s → Q a s) : Meets P (Pure.pure a : Job σ ε α) Q C :=
  fun _ _ s hs => h s hs

theorem bind {job : Job σ ε α} {next : α → Job σ ε β} {R : β → σ → Prop}
    (h : Meets P job Q C) (hnext : ∀ a, Meets (Q a) (next a) R C) :
    Meets P (job >>= next) R C := by
  intro sky n s hs
  have hjob := h sky n s hs
  show match (match job sky n s with
    | (.done a, n, s) => next a sky n s
    | (.failed e, n, s) => (.failed e, n, s)
    | (.cut, n, s) => (.cut, n, s)) with
    | (.done b, _, s') => R b s'
    | (.failed _, _, s') => C s'
    | (.cut, _, s') => C s'
  rcases hrun : job sky n s with ⟨a | e | -, n', s'⟩
  · rw [hrun] at hjob
    exact hnext a sky n' s' hjob
  · rw [hrun] at hjob
    exact hjob
  · rw [hrun] at hjob
    exact hjob

/-- A transaction that is cut leaves what it found; one that fails leaves what it says. -/
theorem transact {tx : Tx σ ε α} (hcut : ∀ s, P s → C s)
    (hok : ∀ s a s', P s → tx s = (.ok a, s') → Q a s')
    (herr : ∀ s e s', P s → tx s = (.error e, s') → C s') : Meets P (transact tx) Q C := by
  intro sky n s hs
  unfold Job.transact
  cases sky.weather n with
  | refused e => exact hcut s hs
  | ended => exact hcut s hs
  | fair =>
    rcases htx : tx s with ⟨e | a, s'⟩
    · exact herr s e s' hs htx
    · exact hok s a s' hs htx

theorem read {f : σ → Except ε α} (hcut : ∀ s, P s → C s) (hok : ∀ s a, P s → f s = .ok a → Q a s) :
    Meets P (read f) Q C := by
  refine transact hcut ?_ ?_
  · intro s a s' hs h
    obtain ⟨hf, rfl⟩ := Prod.mk.inj h
    exact hok s a hs hf
  · intro s e s' hs h
    obtain ⟨-, rfl⟩ := Prod.mk.inj h
    exact hcut s hs

theorem look {Q : Bool → σ → Prop} (h : ∀ b s, P s → Q b s) :
    Meets P (Job.look : Job σ ε Bool) Q C := fun sky n s hs => h (sky.raised n) s hs

theorem ofExcept {r : Except ε α} (hcut : ∀ s, P s → C s) (hok : ∀ s a, P s → r = .ok a → Q a s) :
    Meets P (ofExcept r) Q C := by
  intro sky n s hs
  unfold Job.ofExcept
  cases r with
  | ok a => exact hok s a hs rfl
  | error e => exact hcut s hs

theorem ite {c : Prop} [Decidable c] {yes no : Job σ ε α} (hyes : c → Meets P yes Q C)
    (hno : ¬ c → Meets P no Q C) : Meets P (if c then yes else no) Q C := by
  split
  · exact hyes ‹_›
  · exact hno ‹_›

theorem exists_pre {ι : Sort*} {P : ι → σ → Prop} {job : Job σ ε α}
    (h : ∀ i, Meets (P i) job Q C) : Meets (fun s => ∃ i, P i s) job Q C :=
  fun sky n s ⟨i, hs⟩ => h i sky n s hs

/-- What a precondition says beside the store may be used. -/
theorem fact {p : Prop} {job : Job σ ε α} (hp : ∀ s, P s → p) (h : p → Meets P job Q C) :
    Meets P job Q C := fun sky n s hs => h (hp s hs) sky n s hs

end Meets

/-- The store behind a job, however it ended. -/
def left (job : Job σ ε α) (sky : Sky ε) (s : σ) : σ := (job sky 0 s).2.2

theorem Meets.left {P I : σ → Prop} {job : Job σ ε α} (h : Meets P job (fun _ => I) I) (sky : Sky ε)
    {s : σ} (hs : P s) : I (job.left sky s) := by
  have hrun := h sky 0 s hs
  unfold Job.left
  rcases hjob : job sky 0 s with ⟨a | e | -, n, s'⟩ <;> rw [hjob] at hrun <;> exact hrun

/-- The store behind several jobs, each under a sky of its own. -/
def leftBy (jobs : List (Job σ ε α × Sky ε)) (s : σ) : σ := jobs.foldl (fun s j => j.1.left j.2 s) s

/-- **What each job keeps, however it is cut, any number of them keeps.** -/
theorem leftBy_keeps {I : σ → Prop} : ∀ {jobs : List (Job σ ε α × Sky ε)},
    (∀ j ∈ jobs, Meets I j.1 (fun _ => I) I) → ∀ {s : σ}, I s → I (leftBy jobs s)
  | [], _, _, hs => hs
  | _ :: _, hjobs, _, hs =>
    leftBy_keeps (fun j hj => hjobs j (List.mem_cons_of_mem _ hj))
      ((hjobs _ List.mem_cons_self).left _ hs)

end Job
