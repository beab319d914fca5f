import DedupCommando.Actions.Completed
import DedupCommando.Lib.Recheck

/-!
# What the re-check of an action reads

The bytes `revalidate` of `actions/mod.rs` hashes, counted beside it.

* `revalidateReads`, `Batch.reads` — the bytes of one action and of a whole run.
* `revalidate_counted`, `Batch.applyAll_counted` — the counter that shows them.
* `applyOne_completed` — a completed action reads what the cache lets through.
-/

set_option autoImplicit false

namespace DedupCommando

open World Filesystem

variable {own : Set InodeId} {w : World}

/-! ## The bytes read -/

/-- What `hash_file` reads. -/
def hashReads (path : Path) (w : World) : Nat :=
  match w.openFile path with
  | (.error _, _) => 0
  | (.ok (_, n), _) => if n.kind ≠ .regular then 0 else n.content.length

/-- What `verify_file` reads. -/
def verifyReads (path : Path) (expectedSize : Nat) (mode : RevalidationMode) (verified : Verified)
    (w : World) : Nat :=
  match w.lstat path with
  | (.error _, _) => 0
  | (.ok (i, n), w) =>
    if n.kind = .symlink then 0
    else if n.size ≠ expectedSize then 0
    else if mode ≠ .strict ∧ verified.lookup path = some (n.fileIdentity i) then 0
    else hashReads path w

/-- What `revalidate` reads. -/
def revalidateReads (action : PlanAction) (mode : RevalidationMode) (verified : Verified)
    (w : World) : Nat :=
  verifyReads action.target action.size mode verified w +
    match verifyFile action.target action.size action.expectedHash "target" mode verified w with
    | (.error _, _, _) => 0
    | (.ok (), verified, w) => verifyReads action.keeper action.size mode verified w

/-- What one action reads before it is carried out. -/
def Batch.admissionReads (index : Nat) (action : PlanAction) (b : Batch) (w : World) : Nat :=
  match (b.obstacles[index]?).join with
  | some _ => 0
  | none =>
    match b.guardedPlace action with
    | .error _ => 0
    | .ok _ =>
      match b.checkBoth action w with
      | (.error _, _) => 0
      | (.ok (), w) => revalidateReads action b.mode b.verified w

/-- What a run of the loop reads. -/
def Batch.reads : Nat → List PlanAction → Batch → World → Nat
  | _, [], _, _ => 0
  | index, action :: actions, b, w =>
    if w.outside.cancelled w.tick then 0
    else
      b.admissionReads index action ({ w with index := index } : World).pause +
        match b.applyOne index action { w with index := index } with
        | (_, b, w) => reads (index + 1) actions b w

/-! ## The counter -/

/-- The counter grew by `n`, in 64 bits. -/
def CounterGrew (n : Nat) (w w' : World) : Prop :=
  w'.bytesDone % 2 ^ 64 = (w.bytesDone + n) % 2 ^ 64

theorem CounterGrew.of_bytes {w w' : World} (h : w'.bytesDone = w.bytesDone) : CounterGrew 0 w w' := by
  rw [CounterGrew, h, Nat.add_zero]

theorem CounterGrew.trans {n m : Nat} {w₁ w₂ w₃ : World} (h₁ : CounterGrew n w₁ w₂)
    (h₂ : CounterGrew m w₂ w₃) : CounterGrew (n + m) w₁ w₃ := by
  unfold CounterGrew at *
  omega

theorem hashFile_counted (path : Path) (w : World) :
    CounterGrew (hashReads path w) w (hashFile path w).2 := by
  have hcount : (w.openFile path).2.bytesDone = w.bytesDone := (openFile_looked path w).bytes
  unfold hashFile hashReads
  generalize w.openFile path = step at hcount
  obtain ⟨result, w₁⟩ := step
  rcases result with e | ⟨i, n⟩
  · exact .of_bytes hcount
  · simp only at hcount ⊢
    by_cases hkind : n.kind ≠ .regular
    · rw [if_pos hkind, if_pos hkind]
      exact .of_bytes hcount
    · rw [if_neg hkind, if_neg hkind, CounterGrew, ← hcount]
      exact Nat.mod_mod _ _

theorem verifyFile_counted (path : Path) (size : Nat) (hash role : String)
    (mode : RevalidationMode) (verified : Verified) (w : World) :
    CounterGrew (verifyReads path size mode verified w) w
      (verifyFile path size hash role mode verified w).2.2 := by
  have hcount : (w.lstat path).2.bytesDone = w.bytesDone := (lstat_looked path w).bytes
  unfold verifyFile verifyReads
  generalize w.lstat path = step at hcount
  obtain ⟨result, w₁⟩ := step
  have hsame : CounterGrew 0 w w₁ := .of_bytes hcount
  rcases result with e | ⟨i, n⟩
  · exact hsame
  · simp only
    have hread := hsame.trans (hashFile_counted path w₁)
    rw [Nat.zero_add] at hread
    by_cases hlink : n.kind = .symlink
    · rw [if_pos hlink, if_pos hlink]
      exact hsame
    rw [if_neg hlink, if_neg hlink]
    by_cases hsize : n.size ≠ size
    · rw [if_pos hsize, if_pos hsize]
      exact hsame
    rw [if_neg hsize, if_neg hsize]
    by_cases hcached : mode ≠ .strict ∧ verified.lookup path = some (n.fileIdentity i)
    · rw [if_pos hcached, if_pos hcached]
      exact hsame
    rw [if_neg hcached, if_neg hcached]
    generalize hashFile path w₁ = step at hread ⊢
    obtain ⟨result, w₂⟩ := step
    cases result with
    | error e => exact hread
    | ok digest =>
      simp only at hread ⊢
      split <;> exact hread

/-- **The counter** grows by what is read. -/
theorem revalidate_counted (action : PlanAction) (mode : RevalidationMode) (verified : Verified)
    (w : World) : CounterGrew (revalidateReads action mode verified w) w
      (revalidate action mode verified w).2.2 := by
  have htarget := verifyFile_counted action.target action.size action.expectedHash "target" mode
    verified w
  unfold revalidate revalidateReads
  generalize verifyFile action.target action.size action.expectedHash "target" mode verified w =
    step at htarget ⊢
  obtain ⟨result, verified₁, w₁⟩ := step
  cases result with
  | error e => exact htarget
  | ok a =>
    exact htarget.trans (verifyFile_counted action.keeper action.size action.expectedHash "keeper"
      mode verified₁ w₁)

namespace Batch

theorem admission_counted (index : Nat) (action : PlanAction) (b : Batch) (w : World) :
    CounterGrew (b.admissionReads index action w) w (b.admission index action w).2.2 := by
  unfold admission admissionReads
  cases (b.obstacles[index]?).join with
  | some obstacle => exact .of_bytes rfl
  | none =>
  simp only
  cases b.guardedPlace action with
  | error reason => exact .of_bytes rfl
  | ok dataset =>
  simp only
  have hcheck := (checkBoth_looked action b w).bytes
  generalize b.checkBoth action w = step at hcheck
  obtain ⟨result, w₁⟩ := step
  cases result with
  | error e => exact .of_bytes hcheck
  | ok a =>
    have hcontent := (CounterGrew.of_bytes hcheck).trans
      (revalidate_counted action b.mode b.verified w₁)
    rw [Nat.zero_add] at hcontent
    simp only
    generalize revalidate action b.mode b.verified w₁ = step at hcontent
    obtain ⟨result, verified, w₂⟩ := step
    cases result <;> exact hcontent

theorem applyOne_counted (index : Nat) (action : PlanAction) (b : Batch) (w : World) :
    CounterGrew (b.admissionReads index action w.pause) w (b.applyOne index action w).2.2 := by
  have hchecks : CounterGrew (b.admissionReads index action w.pause) w
      (b.admission index action w.pause).2.2 := admission_counted index action b w.pause
  unfold applyOne
  generalize b.admission index action w.pause = step at hchecks ⊢
  obtain ⟨result, b₁, w₁⟩ := step
  cases result with
  | error reason => exact hchecks
  | ok dataset =>
    exact hchecks.trans (.of_bytes (carryOut_ran action dataset b₁ w₁).2.1.bytes)

/-- **The counter of a run** grows by what the run reads. -/
theorem applyAll_counted : ∀ (index : Nat) (actions : List PlanAction) (b : Batch) (w : World),
    CounterGrew (b.reads index actions w) w (b.applyAll index actions w).2.2
  | _, [], _, _ => .of_bytes rfl
  | index, action :: actions, b, w => by
    unfold applyAll reads
    split
    · exact .of_bytes rfl
    have hone : CounterGrew (b.admissionReads index action ({ w with index := index } : World).pause) w
        (b.applyOne index action { w with index := index }).2.2 :=
      applyOne_counted index action b { w with index := index }
    generalize b.applyOne index action { w with index := index } = step at hone ⊢
    obtain ⟨done, b₁, w₁⟩ := step
    exact hone.trans (applyAll_counted (index + 1) actions b₁ w₁)

end Batch

/-! ## One file -/

theorem hashReads_of_ok (hk : Spares w.outside own) {path : Path} {i : InodeId} (hi : i ∈ own)
    {n : Node} (hp : w.fs.lookup path = some (i, n)) {digest : Bytes}
    (hok : (hashFile path w).1 = .ok digest) : hashReads path w = n.size := by
  have hopen := hk.perform (.openFile path) (Filesystem.openFile path)
  unfold hashFile at hok
  unfold hashReads
  unfold World.openFile at hok ⊢
  generalize w.perform (.openFile path) (Filesystem.openFile path) = step at hok hopen ⊢
  obtain ⟨result, w₁⟩ := step
  rcases hopen with ⟨e, rfl, -⟩ | ⟨⟨j, m⟩, fs₁, rfl, hu, hop⟩
  · exact absurd hok nofun
  · obtain ⟨-, hfound⟩ := Filesystem.openFile_ok hop
    rw [hu.lookup hi hp] at hfound
    cases hfound
    simp only at hok ⊢
    split at hok
    · cases hok
    · rename_i hkind
      rw [if_neg hkind]
      rfl

/-- The use a re-check makes of a file. -/
def useOf (path : Path) (i : InodeId) (n : Node) (size : Nat) : Recheck.Use Path FileIdentity :=
  ⟨path, n.fileIdentity i, size⟩

/-- **A file that passes** is read in full, unless the cache has it as it is. -/
theorem verifyFile_reads (hk : Spares w.outside own) {path : Path} {i : InodeId} (hi : i ∈ own)
    {n : Node} (hp : w.fs.lookup path = some (i, n)) {size : Nat} {hash role : String}
    {mode : RevalidationMode} {verified : Verified}
    (hok : (verifyFile path size hash role mode verified w).1 = .ok ()) :
    verifyReads path size mode verified w =
        (if mode = .strict then size else Recheck.read verified (useOf path i n size)) ∧
      (verifyFile path size hash role mode verified w).2.1 =
        if mode = .strict then verified
        else Recheck.remember verified (useOf path i n size) := by
  have hstat := hk.perform (.lstat path) (Filesystem.lstat path)
  have hlooked := lstat_looked path w
  unfold verifyFile at hok ⊢
  unfold verifyReads
  unfold World.lstat at hok hlooked ⊢
  generalize w.perform (.lstat path) (Filesystem.lstat path) = step at hok hstat hlooked ⊢
  obtain ⟨result, w₁⟩ := step
  rcases hstat with ⟨e, rfl, -⟩ | ⟨⟨j, m⟩, fs₁, rfl, hu, hop⟩
  · cases hok
  obtain ⟨hfs, hfound⟩ := Filesystem.lstat_ok hop
  rw [hu.lookup hi hp] at hfound
  cases hfound
  simp only at hok hlooked hfs ⊢
  have hp₁ : w₁.fs.lookup path = some (i, n) := (hlooked.keeps _ hk).lookup hi hp
  by_cases hlink : n.kind = .symlink
  · rw [if_pos hlink] at hok
    cases hok
  rw [if_neg hlink] at hok ⊢
  rw [if_neg hlink]
  by_cases hsize : n.size ≠ size
  · rw [if_pos hsize] at hok
    cases hok
  rw [if_neg hsize] at hok ⊢
  rw [if_neg hsize]
  have hread := fun digest => @hashReads_of_ok own w₁ (hlooked.toTraced.keeps hk) path i hi n hp₁ digest
  by_cases hstrict : mode = .strict
  · have hmiss : ¬ (mode ≠ .strict ∧ verified.lookup path = some (n.fileIdentity i)) :=
      fun h => h.1 hstrict
    rw [if_neg hmiss] at hok ⊢
    rw [if_neg hmiss, if_pos hstrict, if_pos hstrict]
    generalize hashFile path w₁ = step at hok hread ⊢
    obtain ⟨result, w₂⟩ := step
    cases result with
    | error e => cases hok
    | ok digest =>
      refine ⟨(hread digest rfl).trans (not_not.1 hsize), ?_⟩
      simp only at hok ⊢
      split
      · rfl
      · rw [if_neg fun h => h hstrict]
  · rw [if_neg hstrict, if_neg hstrict]
    by_cases hhit : verified.lookup path = some (n.fileIdentity i)
    · rw [if_pos ⟨hstrict, hhit⟩, if_pos ⟨hstrict, hhit⟩]
      exact ⟨(if_pos hhit).symm, (if_pos hhit).symm⟩
    · have hmiss : ¬ (mode ≠ .strict ∧ verified.lookup path = some (n.fileIdentity i)) :=
        fun h => hhit h.2
      rw [if_neg hmiss] at hok ⊢
      rw [if_neg hmiss]
      unfold Recheck.read Recheck.remember
      rw [show (useOf path i n size).key = path from rfl,
        show (useOf path i n size).stamp = n.fileIdentity i from rfl, if_neg hhit, if_neg hhit]
      generalize hashFile path w₁ = step at hok hread ⊢
      obtain ⟨result, w₂⟩ := step
      cases result with
      | error e => cases hok
      | ok digest =>
        refine ⟨(hread digest rfl).trans (not_not.1 hsize), ?_⟩
        simp only at hok ⊢
        split at hok
        · cases hok
        · rename_i hdigest
          rw [if_neg hdigest, if_pos hstrict]

/-! ## One action -/

/-- Both files of an action are there, and they are two inodes of `own`. -/
structure Standing (own : Set InodeId) (fs : Filesystem) (action : PlanAction) (t k : InodeId)
    (nt nk : Node) : Prop where
  target : fs.lookup action.target = some (t, nt)
  keeper : fs.lookup action.keeper = some (k, nk)
  targetOwn : t ∈ own
  keeperOwn : k ∈ own
  apart : t ≠ k

theorem Standing.untouched {fs fs' : Filesystem} {action : PlanAction} {t k : InodeId}
    {nt nk : Node} (h : Standing own fs action t k nt nk) (hu : Untouched own fs fs') :
    Standing own fs' action t k nt nk :=
  ⟨hu.lookup h.targetOwn h.target, hu.lookup h.keeperOwn h.keeper, h.targetOwn, h.keeperOwn, h.apart⟩

/-- The two uses an action makes. -/
def usesOf (action : PlanAction) (t k : InodeId) (nt nk : Node) :
    List (Recheck.Use Path FileIdentity) :=
  [useOf action.target t nt action.size, useOf action.keeper k nk action.size]

/-- What a cache becomes behind several uses. -/
def Verified.after (verified : Verified) (uses : List (Recheck.Use Path FileIdentity)) : Verified :=
  uses.foldl Recheck.remember verified

section Step

variable {action : PlanAction} {t k : InodeId} {nt nk : Node}

theorem revalidate_reads (hk : Spares w.outside own) (hs : Standing own w.fs action t k nt nk)
    {mode : RevalidationMode} {verified : Verified}
    (hok : (revalidate action mode verified w).1 = .ok ()) :
    revalidateReads action mode verified w =
        (if mode = .strict then action.size + action.size
          else Recheck.reads verified (usesOf action t k nt nk)) ∧
      (revalidate action mode verified w).2.1 =
        if mode = .strict then verified else verified.after (usesOf action t k nt nk) := by
  have htarget := @verifyFile_reads own w hk action.target t hs.targetOwn nt hs.target action.size
    action.expectedHash "target" mode verified
  have hlooked := Batch.verifyFile_read action.target action.size action.expectedHash "target" mode
    verified w
  unfold revalidate at hok ⊢
  unfold revalidateReads
  generalize verifyFile action.target action.size action.expectedHash "target" mode verified w =
    step at hok htarget hlooked ⊢
  obtain ⟨result, verified₁, w₁⟩ := step
  cases result with
  | error e => exact absurd hok nofun
  | ok a =>
    obtain ⟨hread, hcache⟩ := htarget rfl
    simp only at hok hlooked hcache ⊢
    have hs₁ := hs.untouched (hlooked.keeps _ hk)
    obtain ⟨hread₁, hcache₁⟩ := verifyFile_reads (hlooked.toTraced.keeps hk) hs.keeperOwn hs₁.keeper hok
    rw [hread, hread₁, hcache₁, hcache]
    by_cases hstrict : mode = .strict
    · simp [hstrict]
    · simp only [if_neg hstrict]
      exact ⟨rfl, rfl⟩

theorem admission_reads (hk : Spares w.outside own) (hs : Standing own w.fs action t k nt nk)
    {index : Nat} {b : Batch} {dataset : Dataset}
    (hok : (b.admission index action w).1 = .ok dataset) :
    b.admissionReads index action w =
        (if b.mode = .strict then action.size + action.size
          else Recheck.reads b.verified (usesOf action t k nt nk)) ∧
      (b.admission index action w).2.1.verified =
        if b.mode = .strict then b.verified else b.verified.after (usesOf action t k nt nk) := by
  unfold Batch.admission at hok ⊢
  unfold Batch.admissionReads
  generalize (b.obstacles[index]?).join = obstacle at hok ⊢
  cases obstacle with
  | some reason => cases hok
  | none =>
  simp only at hok ⊢
  generalize b.guardedPlace action = placed at hok ⊢
  cases placed with
  | error e => cases hok
  | ok d =>
  have hlooked := Batch.checkBoth_looked action b w
  simp only at hok ⊢
  generalize b.checkBoth action w = step at hok hlooked ⊢
  obtain ⟨result, w₁⟩ := step
  cases result with
  | error e => cases hok
  | ok a =>
  simp only at hok hlooked ⊢
  have hcontent := @revalidate_reads own w₁ action t k nt nk (hlooked.toTraced.keeps hk)
    (hs.untouched (hlooked.keeps _ hk)) b.mode b.verified
  generalize revalidate action b.mode b.verified w₁ = step at hok hcontent ⊢
  obtain ⟨result, verified, w₂⟩ := step
  cases result with
  | error e => cases hok
  | ok a => exact hcontent rfl

/-- **The step**: what a completed action reads, remembers and leaves. -/
theorem applyOne_completed (hk : Spares w.outside own)
    (hclones : ∀ d n, (⟨d, w.outside.inode n⟩ : InodeId) ∈ own)
    (hs : Standing own w.fs action t k nt nk) {index : Nat} {b : Batch}
    (hok : (b.applyOne index action w).1.1.result = .ok ()) :
    b.admissionReads index action w.pause =
        (if b.mode = .strict then action.size + action.size
          else Recheck.reads b.verified (usesOf action t k nt nk)) ∧
      (b.applyOne index action w).2.1.verified =
        (if b.mode = .strict then b.verified else b.verified.after (usesOf action t k nt nk)) ∧
      Carried own action k w.fs (b.applyOne index action w).2.2.fs := by
  have hpause := (pause_looked w).keeps _ hk
  have hs₁ := hs.untouched hpause
  have hread := fun dataset => @admission_reads own w.pause action t k nt nk hk hs₁ index b dataset
  obtain ⟨-, hlooked, -, -⟩ := Batch.admission_spec index action b w.pause
  have hk₁ : Spares w.pause.outside own := hk
  unfold Batch.applyOne at hok ⊢
  generalize b.admission index action w.pause = step at hok hread hlooked ⊢
  obtain ⟨result, b₁, w₁⟩ := step
  cases result with
  | error e => exact absurd hok nofun
  | ok dataset =>
    obtain ⟨hreads, hcache⟩ := hread dataset rfl
    simp only at hok hlooked hcache ⊢
    have hs₂ := hs₁.untouched (hlooked.keeps _ hk₁)
    have hcarried := Batch.carryOut_carried (hlooked.toTraced.keeps hk₁)
      (by rw [hlooked.outside]; exact hclones) hs.targetOwn hs.keeperOwn hs.apart hs₂.target
      hs₂.keeper hok
    refine ⟨hreads, (Batch.carryOut_verified _ _ _ _).trans hcache, ?_⟩
    exact hcarried.untouched (hpause.trans (hlooked.keeps _ hk₁)) (Untouched.refl _ _)

end Step

end DedupCommando
