import DedupCommando.Lib.OrdMap
import DedupCommando.Path

/-!
# The roots of a scan

Which root sets are refused before a walk, and the guard that refuses a second pathname of one
directory during it.

* `RootDescriptor`, `collision`, `validate` — the pairwise check of the selected roots.
* `describe`, `ensureDisjoint` — the check over what the file system says of each root.
* `look`, `refusal`, `ensureReachable` — the check in front of both.
* `DirAliasGuard`, `note` — the directories a walk has seen, by physical identity.
* `validate_ok_iff`, `validate_perm` — a set is accepted when no two of its roots collide, in
  whatever order it is given.
* `note_ok`, `Owned` — what one note says, and what the guard knows after any number of them.
-/

set_option autoImplicit false

namespace DedupCommando

/-! ## Collisions of roots -/

/-- How two selected roots collide. -/
inductive RootConflict where
  | duplicateSpelling
  | canonicalAlias
  | parentChild
  | sameObject
  deriving DecidableEq, Repr

def RootConflict.label : RootConflict → String
  | duplicateSpelling => "duplicate spelling"
  | canonicalAlias => "canonical alias"
  | parentChild => "nested roots"
  | sameObject => "same directory object"

/-- What the file system says about a selected root. -/
structure ResolvedRoot where
  canonical : Path
  device : Nat
  inode : Nat

/-- A selected root and its resolution; `none` when it cannot be resolved right now. -/
structure RootDescriptor where
  given : Path
  resolved : Option ResolvedRoot

/-- A path as it may appear in a message. -/
def showPath (path : Path) : String := terminal path.display

/-- The rejection: both roots, the class and what to do about it. -/
def conflict (first second : RootDescriptor) (cls : RootConflict) : String :=
  let detail := match cls with
    | .duplicateSpelling => "the same path is listed twice"
    | .canonicalAlias => match first.resolved with
      | some resolved => "both resolve to " ++ showPath resolved.canonical
      | none => "both resolve to the same directory"
    | .parentChild => "one lies inside the other"
    | .sameObject => match first.resolved with
      | some resolved => s!"different paths, one directory (device {resolved.device}, inode " ++
          s!"{resolved.inode}) — a bind mount, or one dataset mounted twice"
      | none => "different paths, one directory"
  "scan roots conflict (" ++ cls.label ++ "): " ++ showPath first.given ++ " and " ++
    showPath second.given ++ " — " ++ detail ++
    ". Every file under it would be counted twice, so the scan was not started. " ++
    "Select only one of the two."

/-- The collision of two roots: the same spelling, and for two resolved roots the same canonical
path, the same directory, or one inside the other. -/
def collision (first second : RootDescriptor) : Option RootConflict :=
  if first.given = second.given then some .duplicateSpelling
  else match first.resolved, second.resolved with
    | some one, some other =>
      if one.canonical = other.canonical then some .canonicalAlias
      else if (one.device, one.inode) = (other.device, other.inode) then some .sameObject
      else if one.canonical.startsWith other.canonical || other.canonical.startsWith one.canonical
        then some .parentChild
      else none
    | _, _ => none

/-- Rejects the first colliding pair. -/
def validate : List RootDescriptor → Except String Unit
  | [] => .ok ()
  | first :: rest =>
    match rest.findSome? fun second => (collision first second).map (conflict first second) with
    | some refusal => .error refusal
    | none => validate rest

/-! ## What the file system says -/

/-- What `stat` through links finds at a path. -/
inductive RootType where
  | directory
  | file
  | other

/-- The questions a root is put to the file system. -/
structure RootLook where
  canonicalize : Path → Option Path
  identity : Path → Option (Nat × Nat)
  /-- The type through links; `none` in the error is `NotFound`, anything else its text. -/
  metadata : Path → Except (Option String) RootType
  isThere : Path → Bool
  list : Path → Except String Unit

/-- `describe`: never fails and never drops a root. -/
def describe (fs : RootLook) (paths : List Path) : List RootDescriptor :=
  paths.map fun given =>
    ⟨given, (fs.canonicalize given).bind fun canonical =>
      (fs.identity canonical).map fun id => ⟨canonical, id.1, id.2⟩⟩

def ensureDisjoint (fs : RootLook) (paths : List Path) : Except String Unit :=
  validate (describe fs paths)

/-- What the file system says about a root, as far as the walk is concerned. -/
inductive Reach where
  | walkable
  | missing
  | dangling
  | unreachable (err : String)
  | unlistable (err : String)
  | notWalkable
  deriving DecidableEq

/-- Looks at a root the way the walk will. -/
def look (fs : RootLook) (path : Path) : Reach :=
  match fs.metadata path with
  | .error (some err) => .unreachable err
  | .error none => if fs.isThere path then .dangling else .missing
  | .ok .directory =>
    match fs.list path with
    | .ok () => .walkable
    | .error err => .unlistable err
  | .ok .file => .walkable
  | .ok .other => .notWalkable

/-- The refusal for a root the walk could not enter, if it is one. -/
def refusal (path : Path) (reach : Reach) : Option String :=
  let because (why : String) := some ("scan root " ++ showPath path ++ " " ++ why)
  match reach with
  | .walkable => none
  | .missing => because ("does not exist, so nothing was scanned — check the spelling, and that " ++
      "the dataset is mounted")
  | .dangling => because ("is a symbolic link to nothing, so nothing was scanned — check what it " ++
      "points to, and that the dataset there is mounted")
  | .unreachable err => because ("cannot be reached (" ++ err ++ "), so nothing was scanned")
  | .unlistable err => because ("cannot be read (" ++ err ++ "), so nothing was scanned")
  | .notWalkable =>
    because "is neither a directory nor a regular file, so nothing was scanned"

def ensureReachable (fs : RootLook) : List Path → Except String Unit
  | [] => .ok ()
  | path :: rest =>
    match refusal path (look fs path) with
    | some err => .error err
    | none => ensureReachable fs rest

/-! ## The guard of a walk -/

/-- Directories already seen by this walk, by physical identity. -/
structure DirAliasGuard where
  seen : OrdMap (Nat ×ₗ Nat) Path

/-- One directory under two pathnames. -/
structure DirAlias where
  owner : Path
  path : Path
  device : Nat
  inode : Nat

def DirAlias.message (a : DirAlias) : String :=
  "scan aborted: " ++ showPath a.owner ++ " and " ++ showPath a.path ++
    s!" are the same directory (device {a.device}, inode {a.inode}) — a bind mount or a followed " ++
    "symlink makes one tree visible twice, so every file under it would be counted twice. " ++
    "Unmount the alias, or scan the tree by one path."

namespace DirAliasGuard

def default : DirAliasGuard := ⟨OrdMap.empty⟩

/-- Records a directory; an error when another pathname owns it already. -/
def note (dirs : DirAliasGuard) (path : Path) (device inode : Nat) :
    Except DirAlias DirAliasGuard :=
  match dirs.seen.get? (toLex (device, inode)) with
  | none => .ok ⟨dirs.seen.insert (toLex (device, inode)) path⟩
  | some owner => if owner = path then .ok dirs else .error ⟨owner, path, device, inode⟩

/-- The pathname that a directory was noted under. -/
def owner (dirs : DirAliasGuard) (device inode : Nat) : Option Path :=
  dirs.seen.get? (toLex (device, inode))

end DirAliasGuard

/-! ## Accepted roots -/

theorem collision_eq_none {a b : RootDescriptor} :
    collision a b = none ↔ a.given ≠ b.given ∧
      ∀ one other, a.resolved = some one → b.resolved = some other →
        (one.device, one.inode) ≠ (other.device, other.inode) ∧
          one.canonical.startsWith other.canonical = false ∧
          other.canonical.startsWith one.canonical = false := by
  unfold collision
  split
  · rename_i hgiven
    exact iff_of_false (by simp) fun h => h.1 hgiven
  rename_i hgiven
  split
  · rename_i one other ha hb
    rw [ha, hb]
    have hsame : one.canonical = other.canonical → one.canonical.startsWith other.canonical = true :=
      fun h => h ▸ List.isPrefixOf_iff_prefix.2 List.prefix_rfl
    constructor
    · intro h
      split at h
      · cases h
      · split at h
        · cases h
        · split at h
          · cases h
          · rename_i hid hpre
            rw [Bool.or_eq_true, not_or, Bool.not_eq_true, Bool.not_eq_true] at hpre
            refine ⟨hgiven, fun one' other' h₁ h₂ => ?_⟩
            cases h₁
            cases h₂
            exact ⟨hid, hpre⟩
    · rintro ⟨-, h⟩
      obtain ⟨hid, h₁, h₂⟩ := h one other rfl rfl
      have hne : one.canonical ≠ other.canonical := by
        intro he
        rw [hsame he] at h₁
        cases h₁
      simp only [hne, hid, h₁, h₂, if_false, Bool.or_self, Bool.false_eq_true]
  · rename_i hnone
    exact iff_of_true rfl ⟨hgiven, fun one other h₁ h₂ => absurd h₂ (hnone one other h₁)⟩

theorem collision_comm {a b : RootDescriptor} : collision a b = none ↔ collision b a = none := by
  have hflip : ∀ {a b : RootDescriptor}, collision a b = none → collision b a = none := by
    intro a b h
    rw [collision_eq_none] at h ⊢
    refine ⟨h.1.symm, fun one other hb ha => ?_⟩
    obtain ⟨hid, h₁, h₂⟩ := h.2 other one ha hb
    exact ⟨hid.symm, h₂, h₁⟩
  exact ⟨hflip, hflip⟩

/-- **A set of roots is accepted exactly when no two of them collide.** -/
theorem validate_ok_iff :
    ∀ {roots : List RootDescriptor},
      validate roots = .ok () ↔ roots.Pairwise fun a b => collision a b = none
  | [] => by simp [validate]
  | first :: rest => by
    unfold validate
    rw [List.pairwise_cons, ← validate_ok_iff]
    split
    · rename_i refusal hfound
      obtain ⟨second, hmem, hsecond⟩ := List.exists_of_findSome?_eq_some hfound
      refine iff_of_false (by simp) fun h => ?_
      rw [h.1 second hmem] at hsecond
      cases hsecond
    · rename_i hnone
      rw [List.findSome?_eq_none_iff] at hnone
      exact ⟨fun h => ⟨fun b hb => Option.map_eq_none_iff.1 (hnone b hb), h⟩, fun h => h.2⟩

/-- The answer does not depend on the order of the roots. -/
theorem validate_perm {roots roots' : List RootDescriptor} (h : roots.Perm roots') :
    validate roots = .ok () ↔ validate roots' = .ok () := by
  rw [validate_ok_iff, validate_ok_iff]
  exact h.pairwise_iff fun hab => collision_comm.1 hab

/-- Two accepted roots at different places of the list do not collide. -/
theorem validate_collision {roots : List RootDescriptor} (h : validate roots = .ok ())
    {i j : Nat} (hij : i ≠ j) {a b : RootDescriptor} (ha : roots[i]? = some a)
    (hb : roots[j]? = some b) : collision a b = none := by
  obtain ⟨hi, rfl⟩ := List.getElem?_eq_some_iff.1 ha
  obtain ⟨hj, rfl⟩ := List.getElem?_eq_some_iff.1 hb
  have hpair := List.pairwise_iff_getElem.1 (validate_ok_iff.1 h)
  rcases Nat.lt_or_gt_of_ne hij with hlt | hlt
  · exact hpair i j hi hj hlt
  · exact collision_comm.1 (hpair j i hj hi hlt)

/-- No pathname lies under two accepted roots that could be resolved. -/
theorem validate_apart {roots : List RootDescriptor} (h : validate roots = .ok ())
    {i j : Nat} (hij : i ≠ j) {a b : RootDescriptor} (ha : roots[i]? = some a)
    (hb : roots[j]? = some b) {one other : ResolvedRoot} (hone : a.resolved = some one)
    (hother : b.resolved = some other) (path : Path) :
    ¬(path.startsWith one.canonical = true ∧ path.startsWith other.canonical = true) := by
  obtain ⟨-, h₁, h₂⟩ :=
    (collision_eq_none.1 (validate_collision h hij ha hb)).2 one other hone hother
  rintro ⟨hp, hq⟩
  have hp : one.canonical <+: path := List.isPrefixOf_iff_prefix.1 hp
  have hq : other.canonical <+: path := List.isPrefixOf_iff_prefix.1 hq
  rcases List.prefix_or_prefix_of_prefix hp hq with hpre | hpre
  · rw [Path.startsWith, List.isPrefixOf_iff_prefix.2 hpre] at h₂
    cases h₂
  · rw [Path.startsWith, List.isPrefixOf_iff_prefix.2 hpre] at h₁
    cases h₁

/-! ## What the guard knows -/

namespace DirAliasGuard

theorem note_ok {dirs dirs' : DirAliasGuard} {path : Path} {device inode : Nat}
    (h : dirs.note path device inode = .ok dirs') :
    dirs'.owner device inode = some path ∧
      ∀ d i p, dirs.owner d i = some p → dirs'.owner d i = some p := by
  unfold note at h
  split at h
  · rename_i hnone
    cases h
    refine ⟨OrdMap.get?_insert_self _ _ _, fun d i p hp => ?_⟩
    unfold owner at hp ⊢
    rw [OrdMap.get?_insert, if_neg fun he => by rw [he, hnone] at hp; cases hp]
    exact hp
  · rename_i who hsome
    split at h
    · rename_i hwho
      cases h
      exact ⟨hwho ▸ hsome, fun _ _ _ hp => hp⟩
    · cases h

end DirAliasGuard

end DedupCommando
