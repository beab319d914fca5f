import DedupCommando.Kernel.World

/-!
# Names claimed and files put aside

`suffixed`, `staging_path` of `actions/move_file.rs`, `quarantine_dir` and `delete_to_quarantine`.

* `claimName` — the collision loop: `base`, `base.1`, `base.2`, … until the kernel takes one.
* `deleteToQuarantine` — the evacuation of one file.
* `deleteToQuarantine_spec` — it fails without a change of its own, or it is one
  `rename` of the target to the pathname it returns.
-/

set_option autoImplicit false

namespace DedupCommando

/-! ## Errors -/

def AppError.io (e : IoError) : AppError := ⟨"I/O: " ++ e.text⟩

/-- `rename_failure`: what the system said stays an I/O error, a refusal of the program's own goes
    in its own words. -/
def renameFailure (e : IoError) : AppError :=
  match e.errno with
  | some _ => .io e
  | none => ⟨e.text⟩

def isNameTooLong (e : IoError) : Bool := decide (e.errno = some 36)

/-- `suffix_too_long`. -/
def suffixTooLong (taken : Path) (suffix : String) (e : IoError) : AppError :=
  ⟨s!"{terminal taken.display} is taken, and adding «{suffix}» to the name passes the " ++
    "filesystem's name-length limit (255 bytes on most datasets) — rename one of the two files " ++
    s!"first ({e.text})"⟩

/-! ## Names -/

theorem lt_length_decimalFrom :
    ∀ {fuel n : Nat} {rest : Bytes}, rest.length < (decimalFrom (fuel + 1) n rest).length := by
  intro fuel
  induction fuel with
  | zero =>
    intro n rest
    unfold decimalFrom
    simp only [decimalFrom]
    split <;> simp
  | succ fuel ih =>
    intro n rest
    unfold decimalFrom
    simp only
    split
    · simp
    · have h := @ih (n / 10) (Fin.ofNat 256 (48 + n % 10) :: rest)
      rw [List.length_cons] at h
      omega

/-- The name with `.n` behind it, on the name's raw bytes. -/
def Name.withSuffix (name : Name) (n : Nat) : Name :=
  Name.ofBytes (name.bytes ++ 46 :: decimal n)
    (by
      have h₁ := List.length_pos_iff.2 name.ne_nil
      have h₂ : 0 < (decimal n).length := @lt_length_decimalFrom n n []
      simp only [List.length_append, List.length_cons]
      omega)
    (by
      intro x hx
      rcases List.mem_append.1 hx with hx | hx
      · exact name.byte_ok x hx
      · rcases List.mem_cons.1 hx with rfl | hx
        · decide
        · exact digit_ok (decimal_digits x hx))

/-- `suffixed`: `n = 0` is `base`, otherwise `base.n`. -/
def suffixed (base : Path) (n : Nat) : Path :=
  if n = 0 then base
  else
    match base.fileName with
    | some name => base.withFileName (name.withSuffix n)
    | none => base

/-- The loop of `utf8_prefix_len`: back over continuation bytes, three steps at most. -/
def cutBack (bytes : Bytes) : Nat → Nat → Nat
  | 0, cut => cut
  | steps + 1, cut =>
    if 0 < cut ∧ isContinuation (bytes.getD cut 0) = true then cutBack bytes steps (cut - 1)
    else cut

/-- `utf8_prefix_len`: the longest start of at most `room` bytes that splits no character. -/
def utf8PrefixLen (bytes : Bytes) (room : Nat) : Nat :=
  if bytes.length ≤ room then bytes.length else cutBack bytes 3 room

/-- `STAGING_NAME_KEPT`. -/
def stagingNameKept : Nat := 64

/-- `.dedcom-tmp-` -/
def stagingPrefix : Name :=
  ⟨[46, 100, 101, 100, 99, 111, 109, 45, 116, 109, 112, 45], by decide⟩

/-- `item` -/
def stagingItem : Name := ⟨[105, 116, 101, 109], by decide⟩

/-- The name `staging_path` builds: its prefix, the process, the time, the counter, and the start
    of the target's own name. -/
def stagingName (pid nanos seq : Nat) (name : Option Name) : Name :=
  let base := (name.getD stagingItem).bytes
  Name.ofBytes (stagingPrefix.bytes ++ (decimal pid ++ 45 :: (decimal nanos ++ 45 ::
      (decimal seq ++ 45 :: base.take (utf8PrefixLen base stagingNameKept)))))
    (by simp [stagingPrefix])
    (by
      intro x hx
      have hdash : (45 : Byte) ≠ 0 ∧ (45 : Byte) ≠ 47 := by decide
      simp only [List.mem_append, List.mem_cons] at hx
      rcases hx with hx | hx | rfl | hx | rfl | hx | rfl | hx
      · exact stagingPrefix.byte_ok x hx
      · exact digit_ok (decimal_digits x hx)
      · exact hdash
      · exact digit_ok (decimal_digits x hx)
      · exact hdash
      · exact digit_ok (decimal_digits x hx)
      · exact hdash
      · exact (name.getD stagingItem).byte_ok x (List.mem_of_mem_take hx))

/-- The staging pathname the program will use next for a file called `name` in `parent`. -/
def World.stagingAt (w : World) (parent : Path) (name : Option Name) : Path :=
  parent.join [.normal (stagingName w.outside.pid (w.outside.nanos w.tick) w.stagingSeq name)]

/-- `staging_path`. -/
def stagingPath (parent : Path) (name : Option Name) (w : World) : Path × World :=
  (w.stagingAt parent name, { w with stagingSeq := w.stagingSeq + 1 })

/-- `.dedcom-quarantine` -/
def quarantineDirName : Name :=
  ⟨[46, 100, 101, 100, 99, 111, 109, 45, 113, 117, 97, 114, 97, 110, 116, 105, 110, 101],
    by decide⟩

def quarantineRoot (mountpoint : Path) : Path := mountpoint.join [.normal quarantineDirName]

/-- `quarantine_dir`. -/
def quarantineDir (mountpoint : Path) (timestamp : Name) : Path :=
  (quarantineRoot mountpoint).join [.normal timestamp]

/-! ## Putting a file aside -/

/-- The collision loop of `delete_to_quarantine` from suffix `n`; `fuel` is how many values of the
    32-bit counter are left. -/
def claimName (target base : Path) : Nat → Nat → World → Except AppError Path × World
  | 0, _, w => (.error ⟨"every name is taken"⟩, w)
  | fuel + 1, n, w =>
    match w.renameNoreplace target (suffixed base n) with
    | (.ok (), w) => (.ok (suffixed base n), w)
    | (.error e, w) =>
      if e.errno = some 17 then claimName target base fuel (n + 1) w
      else if 0 < n ∧ isNameTooLong e = true then
        (.error (suffixTooLong base s!".{n}" e), w)
      else (.error (renameFailure e), w)

/-- `create_dir_all` of the parent, when there is one. -/
def makeParent (base : Path) (w : World) : Except IoError Unit × World :=
  match base.parent with
  | none => (.ok (), w)
  | some parent => w.createDirAll parent

/-- `delete_to_quarantine`. -/
def deleteToQuarantine (target mountpoint dir : Path) (w : World) : Except AppError Path × World :=
  match w.lstat target with
  | (.error e, w) => (.error (.io e), w)
  | (.ok (_, n), w) =>
    if n.kind = .symlink then (.error ⟨"target is a symbolic link, skipping"⟩, w)
    else
      match target.stripPrefix mountpoint with
      | none => (.error ⟨s!"{target.display} is outside dataset {mountpoint.display}"⟩, w)
      | some relative =>
        match makeParent (dir.join relative) w with
        | (.error e, w) => (.error (.io e), w)
        | (.ok (), w) => claimName target (dir.join relative) (2 ^ 32) 0 w

/-! ## What it does -/

/-- `claimName` fails without a change of its own, or is one rename. -/
theorem claimName_spec {R : Filesystem → Filesystem → Prop} (target base : Path) :
    ∀ (fuel n : Nat) {w : World}, World.Keeps w.outside R →
      (∃ e, (claimName target base fuel n w).1 = .error e ∧
        R w.fs (claimName target base fuel n w).2.fs) ∨
      ∃ q fs₁ now, (claimName target base fuel n w).1 = .ok q ∧ R w.fs fs₁ ∧
        Filesystem.rename now target q fs₁ = .ok ((), (claimName target base fuel n w).2.fs)
  | 0, _, _, hk => .inl ⟨_, rfl, hk.refl _⟩
  | fuel + 1, n, w, hk => by
    unfold claimName
    have hran := World.perform_ran (.rename target (suffixed base n))
      (Filesystem.rename w.now target (suffixed base n)) w
    have hstep := hk.perform (.rename target (suffixed base n))
      (Filesystem.rename w.now target (suffixed base n))
    unfold World.renameNoreplace
    generalize w.perform (.rename target (suffixed base n))
      (Filesystem.rename w.now target (suffixed base n)) = step at hran hstep
    obtain ⟨r, w₁⟩ := step
    rcases hstep with ⟨e, he, hR⟩ | ⟨a, fs₁, hok, hR, hop⟩
    · simp only at he hR hran
      subst he
      simp only
      split
      · -- the name is taken: the next one, from a world still within `R`
        have hk₁ : World.Keeps w₁.outside R := by rw [hran.outside]; exact hk
        rcases claimName_spec target base fuel (n + 1) hk₁ with
          ⟨e, he, hR'⟩ | ⟨q, fs₂, now, hq, hR', hop⟩
        · exact .inl ⟨e, he, hk.trans hR hR'⟩
        · exact .inr ⟨q, fs₂, now, hq, hk.trans hR hR', hop⟩
      · split
        · exact .inl ⟨_, rfl, hR⟩
        · exact .inl ⟨_, rfl, hR⟩
    · simp only at hok hop
      subst hok
      exact .inr ⟨_, fs₁, _, rfl, hR, hop⟩

theorem claimName_ran (target base : Path) :
    ∀ (fuel n : Nat) (w : World), World.Ran w (claimName target base fuel n w).2
  | 0, _, w => World.Ran.refl w
  | fuel + 1, n, w => by
    unfold claimName
    have hran : World.Ran w (w.renameNoreplace target (suffixed base n)).2 := World.perform_ran _ _ w
    split
    · rename_i h; rw [h] at hran; exact hran
    · rename_i h
      rw [h] at hran
      split
      · exact hran.trans (claimName_ran target base fuel (n + 1) _)
      · split <;> exact hran

theorem makeParent_spec {R : Filesystem → Filesystem → Prop} (base : Path) {w : World}
    (hk : World.Keeps w.outside R) :
    R w.fs (makeParent base w).2.fs ∧ World.Ran w (makeParent base w).2 := by
  unfold makeParent
  split
  · exact ⟨hk.refl _, World.Ran.refl w⟩
  · rename_i parent _
    refine ⟨?_, World.perform_ran _ _ w⟩
    rcases hk.perform (.createDirAll parent) (fun fs => .ok ((), fs)) with
      ⟨e, -, hR⟩ | ⟨a, fs₁, -, hR, hop⟩
    · exact hR
    · cases hop; exact hR

theorem lstat_spec {R : Filesystem → Filesystem → Prop} (p : Path) {w : World}
    (hk : World.Keeps w.outside R) :
    R w.fs (w.lstat p).2.fs ∧
      ∀ found, (w.lstat p).1 = .ok found → (w.lstat p).2.fs.lookup p = some found := by
  rcases hk.perform (.lstat p) (Filesystem.lstat p) with ⟨e, he, hR⟩ | ⟨a, fs₁, hok, hR, hop⟩
  · refine ⟨hR, fun found h => ?_⟩
    unfold World.lstat at h
    rw [he] at h; cases h
  · obtain ⟨hfs, hfound⟩ := Filesystem.lstat_ok hop
    unfold World.lstat
    rw [hfs]
    refine ⟨hR, fun found h => ?_⟩
    rw [hok] at h
    cases h
    exact hfound

theorem deleteToQuarantine_ran (target mountpoint dir : Path) (w : World) :
    World.Ran w (deleteToQuarantine target mountpoint dir w).2 := by
  have hstat : World.Ran w (w.lstat target).2 := World.perform_ran _ _ w
  unfold deleteToQuarantine
  split
  · rename_i h; rw [h] at hstat; exact hstat
  · rename_i w₁ h
    rw [h] at hstat
    split
    · exact hstat
    · split
      · exact hstat
      · rename_i relative _
        have hparent : World.Ran w₁ (makeParent (dir.join relative) w₁).2 := by
          unfold makeParent
          split
          · exact World.Ran.refl w₁
          · exact World.perform_ran _ _ w₁
        split
        · rename_i h'; rw [h'] at hparent; exact hstat.trans hparent
        · rename_i h'
          rw [h'] at hparent
          exact (hstat.trans hparent).trans (claimName_ran _ _ _ _ _)

/-- **An evacuation is one rename or nothing**: on an error only other processes changed a file, and
    otherwise the target went to the pathname returned, which was free. -/
theorem deleteToQuarantine_spec {R : Filesystem → Filesystem → Prop}
    (target mountpoint dir : Path) {w : World} (hk : World.Keeps w.outside R) :
    (∃ e, (deleteToQuarantine target mountpoint dir w).1 = .error e ∧
      R w.fs (deleteToQuarantine target mountpoint dir w).2.fs) ∨
    ∃ q fs₁ now, (deleteToQuarantine target mountpoint dir w).1 = .ok q ∧ R w.fs fs₁ ∧
      Filesystem.rename now target q fs₁ =
        .ok ((), (deleteToQuarantine target mountpoint dir w).2.fs) := by
  have hstat := (lstat_spec target hk).1
  have hran : World.Ran w (w.lstat target).2 := World.perform_ran _ _ w
  unfold deleteToQuarantine
  split
  · rename_i h; rw [h] at hstat; exact .inl ⟨_, rfl, hstat⟩
  · rename_i w₁ h
    rw [h] at hstat hran
    have hk₁ : World.Keeps w₁.outside R := by rw [hran.outside]; exact hk
    split
    · exact .inl ⟨_, rfl, hstat⟩
    · split
      · exact .inl ⟨_, rfl, hstat⟩
      · rename_i relative _
        obtain ⟨hparent, hran'⟩ := makeParent_spec (dir.join relative) hk₁
        split
        · rename_i h'
          rw [h'] at hparent
          exact .inl ⟨_, rfl, hk.trans hstat hparent⟩
        · rename_i w₂ h'
          rw [h'] at hparent hran'
          have hk₂ : World.Keeps w₂.outside R := by rw [hran'.outside]; exact hk₁
          have hwithin := hk.trans hstat hparent
          rcases claimName_spec target (dir.join relative) (2 ^ 32) 0 hk₂ with ⟨e, he, hR⟩ | ⟨q, fs₁, now, hq, hR, hop⟩
          · exact .inl ⟨e, he, hk.trans hwithin hR⟩
          · exact .inr ⟨q, fs₁, now, hq, hk.trans hwithin hR, hop⟩

end DedupCommando
