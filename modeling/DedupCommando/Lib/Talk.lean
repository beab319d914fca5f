import Mathlib

/-!
# Programs that talk to a party outside

A program asks, is answered, and keeps a log of what it was told; a bad answer is an error of
the question that received it, and the program has to carry that error to its own result.

* `Talk` — a state and an error; `Talk.exec_bind` reads a sequence off.
* `Tells` — the log only grows, and a bad entry ends the program with an error that shows it.
* `Fails` — what the errors of a program can be.
* `Tells.pure`, `fail`, `bind`, `mapError`, `attempt` — the rules, one for each way a program is put together.
-/

set_option autoImplicit false

/-- A program over a state `ς` that may end with an error; what it did to the state stays. -/
def Talk (ς ε α : Type) := ς → Except ε α × ς

namespace Talk

variable {ς ε ε' ι α β : Type}

/-- The result of a program, and the state it leaves. -/
def exec (m : Talk ς ε α) (s : ς) : Except ε α × ς := m s

/-- A program that ends with an error. -/
def fail (e : ε) : Talk ς ε α := fun s => (.error e, s)

/-- One question: the answer, and the state it leaves. -/
def ask (f : ς → Except ε α × ς) : Talk ς ε α := f

instance : Monad (Talk ς ε) where
  pure a := fun s => (.ok a, s)
  bind m f := fun s =>
    match m s with
    | (.ok a, s') => f a s'
    | (.error e, s') => (.error e, s')

/-- `map_err` -/
def mapError (g : ε → ε') (m : Talk ς ε α) : Talk ς ε' α := fun s =>
  match m s with
  | (.ok a, s') => (.ok a, s')
  | (.error e, s') => (.error (g e), s')

/-- The program's own outcome, as a value. -/
def attempt (m : Talk ς ε α) : Talk ς ε' (Except ε α) := fun s =>
  match m s with
  | (r, s') => (.ok r, s')

@[simp]
theorem exec_pure (a : α) (s : ς) : (pure a : Talk ς ε α).exec s = (.ok a, s) := rfl

@[simp]
theorem exec_fail (e : ε) (s : ς) : (fail e : Talk ς ε α).exec s = (.error e, s) := rfl

theorem exec_bind (m : Talk ς ε α) (f : α → Talk ς ε β) (s : ς) :
    (m >>= f).exec s =
      match m.exec s with
      | (.ok a, s') => (f a).exec s'
      | (.error e, s') => (.error e, s') := rfl

theorem exec_mapError (g : ε → ε') (m : Talk ς ε α) (s : ς) :
    (m.mapError g).exec s =
      match m.exec s with
      | (.ok a, s') => (.ok a, s')
      | (.error e, s') => (.error (g e), s') := rfl

/-! ## Logged programs -/

/-- From `log s` to `log s'` only `new` was added. -/
def Adds (log : ς → List ι) (s s' : ς) (new : List ι) : Prop := log s' = log s ++ new

theorem Adds.trans {log : ς → List ι} {s s' s'' : ς} {new new' : List ι}
    (h : Adds log s s' new) (h' : Adds log s' s'' new') : Adds log s s'' (new ++ new') := by
  unfold Adds at *
  rw [h', h, List.append_assoc]

/-- The log only grows, and once a bad entry was added the program ends with an error that
    shows it. -/
def Tells (log : ς → List ι) (bad : ι → Prop) (shows : ε → Prop) (m : Talk ς ε α) : Prop :=
  ∀ s, ∃ new, Adds log s (m.exec s).2 new ∧
    ((∃ c ∈ new, bad c) → ∃ e, (m.exec s).1 = .error e ∧ shows e)

variable {log : ς → List ι} {bad : ι → Prop} {shows : ε → Prop} {shows' : ε' → Prop}

theorem Tells.pure (a : α) : Tells log bad shows (pure a : Talk ς ε α) :=
  fun _ => ⟨[], (List.append_nil _).symm, fun ⟨_, hc, _⟩ => absurd hc List.not_mem_nil⟩

theorem Tells.fail (e : ε) : Tells log bad shows (fail e : Talk ς ε α) :=
  fun _ => ⟨[], (List.append_nil _).symm, fun ⟨_, hc, _⟩ => absurd hc List.not_mem_nil⟩

/-- **A sequence tells what its parts tell**: after a bad entry of the first part the second does
    not run. -/
theorem Tells.bind {m : Talk ς ε α} {f : α → Talk ς ε β} (hm : Tells log bad shows m)
    (hf : ∀ a, Tells log bad shows (f a)) : Tells log bad shows (m >>= f) := by
  intro s
  obtain ⟨new, hnew, hbad⟩ := hm s
  rw [exec_bind]
  cases h : m.exec s with
  | mk r s' =>
    rw [h] at hnew hbad
    cases r with
    | error e =>
      refine ⟨new, hnew, fun hc => ?_⟩
      obtain ⟨e', he, hshows⟩ := hbad hc
      cases he
      exact ⟨e, rfl, hshows⟩
    | ok a =>
      obtain ⟨new', hnew', hbad'⟩ := hf a s'
      refine ⟨new ++ new', hnew.trans hnew', ?_⟩
      rintro ⟨c, hc, hcbad⟩
      rcases List.mem_append.1 hc with hc | hc
      · obtain ⟨e, he, -⟩ := hbad ⟨c, hc, hcbad⟩
        cases he
      · exact hbad' ⟨c, hc, hcbad⟩

theorem Tells.mapError {g : ε → ε'} {m : Talk ς ε α} (hm : Tells log bad shows m)
    (hg : ∀ e, shows e → shows' (g e)) : Tells log bad shows' (m.mapError g) := by
  intro s
  obtain ⟨new, hnew, hbad⟩ := hm s
  rw [exec_mapError]
  cases h : m.exec s with
  | mk r s' =>
    rw [h] at hnew hbad
    cases r with
    | ok a =>
      refine ⟨new, hnew, fun hc => ?_⟩
      obtain ⟨e, he, -⟩ := hbad hc
      cases he
    | error e =>
      refine ⟨new, hnew, fun hc => ?_⟩
      obtain ⟨e', he, hshows⟩ := hbad hc
      cases he
      exact ⟨g e, rfl, hg e hshows⟩

/-- A program that is told nothing bad may end as it likes. -/
theorem Tells.attempt {m : Talk ς ε α} (hm : Tells log bad (fun _ => False) m) :
    Tells log bad shows' m.attempt := by
  intro s
  obtain ⟨new, hnew, hbad⟩ := hm s
  refine ⟨new, hnew, fun hc => ?_⟩
  obtain ⟨_, _, hfalse⟩ := hbad hc
  exact hfalse.elim

/-! ## What an error can be -/

/-- Every error of the program is one of `P`. -/
def Fails (P : ε → Prop) (m : Talk ς ε α) : Prop := ∀ s e, (m.exec s).1 = .error e → P e

variable {P : ε → Prop} {P' : ε' → Prop}

theorem Fails.pure (a : α) : Fails P (pure a : Talk ς ε α) := by
  intro s e he
  cases he

theorem Fails.fail {e : ε} (h : P e) : Fails P (fail e : Talk ς ε α) := by
  intro s e' he
  cases he
  exact h

theorem Fails.bind {m : Talk ς ε α} {f : α → Talk ς ε β} (hm : Fails P m)
    (hf : ∀ a, Fails P (f a)) : Fails P (m >>= f) := by
  intro s e he
  rw [exec_bind] at he
  have hms := hm s
  cases h : m.exec s with
  | mk r s' =>
    rw [h] at he hms
    cases r with
    | ok a => exact hf a s' e he
    | error e' =>
      cases he
      exact hms _ rfl

theorem Fails.mapError {g : ε → ε'} {m : Talk ς ε α} (h : ∀ e, P' (g e)) :
    Fails P' (m.mapError g) := by
  intro s e he
  rw [exec_mapError] at he
  cases hm : m.exec s with
  | mk r s' =>
    rw [hm] at he
    cases r with
    | ok a => cases he
    | error e' =>
      cases he
      exact h e'

end Talk
