import DedupCommando.Actions.Completed
import DedupCommando.Kernel.Metadata

/-!
# What a clone carries of the file it replaces

`meta::read` and `meta::apply` (`actions/meta.rs`) in a run of `reflink` (`actions/reflink.rs`),
among processes that leave the files of the plan alone and under any failures of the calls.

* `metaRead_ok` — what `meta::read` returns is the target's own owner, mode, times and attributes,
  over however many passes.
* `metaApply_ok` — what `meta::apply` leaves on the clone, down to what the clone came with.
* `sameIdentity_onto_iff` — the two agree exactly when the clone came with no attribute under a name
  the target has none under.
* `prepareClone` — what `reflink` does before anything moves.
* `carriesIdentity_iff` — **a published clone carries the identity** under that condition alone.
* `not_carriesIdentity` — a directory that hands an access control list on.
-/

set_option autoImplicit false

namespace DedupCommando

open World Filesystem

variable {own : Set InodeId} {w : World} {t : InodeId} {nt : Node} {target : Path}

/-! ## Reading -/

theorem namesOf_append : ∀ (name piece : Bytes) (rest : Bytes), (0 : Byte) ∉ name →
    namesOf piece (name ++ rest) = namesOf (piece ++ name) rest
  | [], piece, rest, _ => by rw [List.nil_append, List.append_nil]
  | b :: name, piece, rest, h => by
    rw [List.mem_cons, not_or] at h
    rw [List.cons_append, namesOf, if_neg (Ne.symm h.1), namesOf_append name _ rest h.2,
      List.append_assoc, List.singleton_append]

/-- The names the kernel wrote come apart again. -/
theorem namesOf_xattrNames : ∀ xattrs : List (Bytes × Bytes),
    (∀ x ∈ xattrs, x.1 ≠ [] ∧ (0 : Byte) ∉ x.1) →
      namesOf [] (xattrs.flatMap fun x => x.1 ++ [0]) = xattrs.map Prod.fst
  | [], _ => rfl
  | x :: xattrs, h => by
    obtain ⟨hne, hplain⟩ := h x List.mem_cons_self
    rw [List.flatMap_cons, List.append_assoc, namesOf_append x.1 [] _ hplain, List.nil_append,
      List.singleton_append, namesOf, if_pos rfl, if_neg hne,
      namesOf_xattrNames xattrs fun y hy => h y (List.mem_cons_of_mem _ hy), List.map_cons]

theorem lookup_of_mem {κ α : Type} [BEq κ] [LawfulBEq κ] {k : κ} {a : α} :
    ∀ {xs : List (κ × α)}, (xs.map Prod.fst).Nodup → (k, a) ∈ xs → xs.lookup k = some a
  | (k', a') :: xs, hnodup, hmem => by
    rw [List.map_cons, List.nodup_cons] at hnodup
    rw [List.lookup_cons]
    rcases List.mem_cons.1 hmem with heq | htail
    · cases heq
      rw [beq_self_eq_true]
    · have hne : (k == k') = false := by
        rw [beq_eq_false_iff_ne]
        rintro rfl
        exact hnodup.1 (List.mem_map.2 ⟨_, htail, rfl⟩)
      rw [hne]
      exact lookup_of_mem hnodup.2 htail

/-- `target` is a name of the file `t`, which other processes leave alone. -/
structure Stands (own : Set InodeId) (target : Path) (t : InodeId) (nt : Node) (w : World) :
    Prop where
  spares : Spares w.outside own
  mem : t ∈ own
  lookup : w.fs.lookup target = some (t, nt)

/-- A filesystem that says it does no extended attributes has none to carry. -/
def Outside.SupportsXattrs (o : Outside) (target : Path) (nt : Node) : Prop :=
  ∀ n e, o.fault n (.listXattrs target) = some e → noXattrSupport e = true → nt.xattrs = []

theorem Stands.looked {w' : World} (h : Stands own target t nt w) (hl : Looked w w') :
    Stands own target t nt w' :=
  ⟨hl.toTraced.keeps h.spares, h.mem, (hl.keeps _ h.spares).lookup h.mem h.lookup⟩

/-- A call that only looks, on a file that stands. -/
theorem Stands.perform {α : Type} {c : Syscall}
    {op : Filesystem → Except IoError (α × Filesystem)} (h : Stands own target t nt w) :
    (∃ e, (w.perform c op).1 = .error e ∧ (w.outside.fault w.tick c = some e ∨
      ∃ fs, fs.lookup target = some (t, nt) ∧ op fs = .error e)) ∨
      ∃ a fs fs', (w.perform c op).1 = .ok a ∧ fs.lookup target = some (t, nt) ∧
        op fs = .ok (a, fs') := by
  have hthere := (h.spares.enter c).lookup h.mem h.lookup
  rcases w.perform_cases c op with ⟨e, hp, hfault | ⟨-, hop⟩⟩ | ⟨a, fs, hp, -, hop⟩
  · exact .inl ⟨e, by rw [hp], .inl hfault⟩
  · exact .inl ⟨e, by rw [hp], .inr ⟨_, hthere, hop⟩⟩
  · exact .inr ⟨a, _, fs, by rw [hp], hthere, hop⟩

theorem listXattrs_stands (h : Stands own target t nt w) (room : Nat) {r : Except IoError Bytes}
    {w' : World} (hr : w.listXattrs target room = (r, w')) :
    (∀ names, r = .ok names → names = nt.xattrNames) ∧
      (w.outside.SupportsXattrs target nt → ∀ e, r = .error e → noXattrSupport e = true →
        nt.xattrs = []) := by
  have hcases := @Stands.perform own w t nt target _ (.listXattrs target)
    (Filesystem.listXattrs target room) h
  have hfst : (w.perform (.listXattrs target) (Filesystem.listXattrs target room)).1 = r :=
    congrArg Prod.fst hr
  rw [hfst] at hcases
  rcases hcases with ⟨e, rfl, hwhy⟩ | ⟨a, fs, fs', rfl, hthere, hop⟩
  · refine ⟨nofun, fun hsupport e' he' hno => ?_⟩
    cases he'
    rcases hwhy with hfault | ⟨fs, hthere, hop⟩
    · exact hsupport _ e hfault hno
    · unfold Filesystem.listXattrs at hop
      rw [hthere] at hop
      simp only at hop
      split at hop
      · cases hop
        cases hno
      · cases hop
  · refine ⟨fun names hnames => ?_, fun _ => nofun⟩
    cases hnames
    obtain ⟨-, i, n, hfound, hnames, -⟩ := listXattrs_ok hop
    rw [hthere] at hfound
    cases hfound
    exact hnames

theorem getXattr_stands (h : Stands own target t nt w) {name value : Bytes} {room : Nat}
    (hname : nt.xattrs.lookup name = some value) {read : Bytes} {w' : World}
    (hr : w.getXattr target name room = (.ok read, w')) : read = value := by
  have hcases := @Stands.perform own w t nt target _ (.getXattr target name)
    (Filesystem.getXattr target name room) h
  have hfst : (w.perform (.getXattr target name) (Filesystem.getXattr target name room)).1 =
      .ok read := congrArg Prod.fst hr
  rw [hfst] at hcases
  rcases hcases with ⟨e, he, -⟩ | ⟨a, fs, fs', ha, hthere, hop⟩
  · cases he
  · cases ha
    obtain ⟨-, i, n, hfound, hvalue⟩ := getXattr_ok hop
    rw [hthere] at hfound
    cases hfound
    rw [hname] at hvalue
    exact (Option.some.inj hvalue).symm

theorem listXattrNames_ok (h : Stands own target t nt w) (hsound : nt.Sound)
    (hsupport : w.outside.SupportsXattrs target nt) {names : List Bytes}
    (hok : (listXattrNames target w).1 = .ok (some names)) : names = nt.xattrs.map Prod.fst := by
  have hlooked := World.listXattrs_looked target 0 w
  unfold listXattrNames at hok
  cases hprobe : w.listXattrs target 0 with
  | mk r w₁ =>
  rw [hprobe] at hok hlooked
  obtain ⟨hprobed, hnone⟩ := listXattrs_stands h 0 hprobe
  have hempty : nt.xattrs = [] → names = [] → names = nt.xattrs.map Prod.fst := by
    intro hx hn
    rw [hx, hn]
    rfl
  cases r with
  | error e =>
    simp only at hok
    split at hok
    · rename_i hno
      cases hok
      exact hempty (hnone hsupport e rfl hno) rfl
    · cases hok
  | ok probed =>
    simp only at hok
    obtain rfl := hprobed probed rfl
    split at hok
    · rename_i hlen
      cases hok
      refine hempty ?_ rfl
      cases hx : nt.xattrs with
      | nil => rfl
      | cons x xs =>
        unfold Node.xattrNames at hlen
        rw [hx] at hlen
        simp at hlen
    · have h₁ := h.looked hlooked
      have hsupport₁ : w₁.outside.SupportsXattrs target nt := by
        rw [hlooked.outside]
        exact hsupport
      cases hread : w₁.listXattrs target nt.xattrNames.length with
      | mk r w₂ =>
      rw [hread] at hok
      obtain ⟨hnames, hnone₁⟩ := listXattrs_stands h₁ _ hread
      cases r with
      | error e =>
        simp only at hok
        split at hok
        · cases hok
        · split at hok
          · rename_i hno
            cases hok
            exact hempty (hnone₁ hsupport₁ e rfl hno) rfl
          · cases hok
      | ok read =>
        cases hok
        rw [hnames read rfl]
        exact namesOf_xattrNames nt.xattrs hsound.plain

theorem racedOrError_ne {name : Bytes} {e : IoError} {value : Bytes} :
    racedOrError name e ≠ .ok (some value) := by
  unfold racedOrError
  split <;> nofun

theorem readXattrValue_ok (h : Stands own target t nt w) {name value read : Bytes}
    (hname : nt.xattrs.lookup name = some value)
    (hok : (readXattrValue target name w).1 = .ok (some read)) : read = value := by
  have hlooked := World.getXattr_looked target name 0 w
  unfold readXattrValue at hok
  cases hprobe : w.getXattr target name 0 with
  | mk r w₁ =>
  rw [hprobe] at hok hlooked
  cases r with
  | error e => exact absurd hok racedOrError_ne
  | ok probed =>
    obtain rfl := getXattr_stands h hname hprobe
    cases hread : w₁.getXattr target name probed.length with
    | mk r w₂ =>
    simp only [hread] at hok
    cases r with
    | error e => exact absurd hok racedOrError_ne
    | ok again =>
      cases hok
      rw [getXattr_stands (h.looked hlooked) hname hread, List.take_length]

theorem readValues_ok : ∀ {rest : List (Bytes × Bytes)} {w : World} {read : List (Bytes × Bytes)},
    Stands own target t nt w → (∀ x ∈ rest, nt.xattrs.lookup x.1 = some x.2) →
      (readValues target (rest.map Prod.fst) w).1 = .ok (some read) → read = rest
  | [], w, read, _, _, hok => by
    cases hok
    rfl
  | (name, value) :: rest, w, read, h, hlookup, hok => by
    have hlooked := readXattrValue_looked target name w
    have hvalue := fun read' => @readXattrValue_ok own w t nt target h name value read'
    rw [List.map_cons] at hok
    unfold readValues at hok
    generalize readXattrValue target name w = step at hok hlooked hvalue
    obtain ⟨r, w₁⟩ := step
    cases r with
    | error e => cases hok
    | ok r =>
      cases r with
      | none => cases hok
      | some v =>
        obtain rfl := hvalue v (hlookup _ List.mem_cons_self) rfl
        have hrest := fun read' => @readValues_ok rest w₁ read' (h.looked hlooked)
          fun x hx => hlookup x (List.mem_cons_of_mem _ hx)
        simp only at hok
        generalize readValues target (rest.map Prod.fst) w₁ = step at hok hrest
        obtain ⟨r, w₂⟩ := step
        cases r with
        | error e => cases hok
        | ok r =>
          cases r with
          | none => cases hok
          | some xattrs =>
            cases hok
            rw [hrest xattrs rfl]

/-- One pass reads what is there or says that it raced. -/
theorem snapshotXattrs_ok (h : Stands own target t nt w) (hsound : nt.Sound)
    (hsupport : w.outside.SupportsXattrs target nt) {read : List (Bytes × Bytes)}
    (hok : (snapshotXattrs target w).1 = .ok (some read)) : read = nt.xattrs := by
  have hlooked := listXattrNames_looked target w
  have hnames := fun names => @listXattrNames_ok own w t nt target h hsound hsupport names
  unfold snapshotXattrs at hok
  generalize listXattrNames target w = step at hok hlooked hnames
  obtain ⟨r, w₁⟩ := step
  cases r with
  | error e => cases hok
  | ok r =>
    cases r with
    | none => cases hok
    | some names =>
      obtain rfl := hnames names rfl
      exact readValues_ok (h.looked hlooked)
        (fun x hx => lookup_of_mem hsound.names hx) hok

/-- However many passes raced, the one that is kept read what is there. -/
theorem readXattrs_ok (hsound : nt.Sound) : ∀ {attempts : Nat} {w : World}
    {read : List (Bytes × Bytes)}, Stands own target t nt w →
      w.outside.SupportsXattrs target nt → (readXattrs target attempts w).1 = .ok read →
        read = nt.xattrs
  | 0, _, _, _, _, hok => by cases hok
  | attempts + 1, w, read, h, hsupport, hok => by
    have hlooked := snapshotXattrs_looked target w
    have hpass := fun read' => @snapshotXattrs_ok own w t nt target h hsound hsupport read'
    unfold readXattrs at hok
    generalize snapshotXattrs target w = step at hok hlooked hpass
    obtain ⟨r, w₁⟩ := step
    cases r with
    | error e => cases hok
    | ok r =>
      cases r with
      | none =>
        refine readXattrs_ok hsound (h.looked hlooked) ?_ hok
        rw [show w₁.outside = w.outside from hlooked.outside]
        exact hsupport
      | some xattrs =>
        cases hok
        exact hpass read rfl

/-- What `meta::read` is to return of a file. -/
def FileMetadata.of (n : Node) : FileMetadata :=
  { uid := n.uid, gid := n.gid, mode := n.mode, atime := n.atime, mtime := n.mtime
    xattrs := n.xattrs }

/-- **`meta::read` reads the file's own identity.** -/
theorem metaRead_ok (h : Stands own target t nt w) (hsound : nt.Sound)
    (hsupport : w.outside.SupportsXattrs target nt) {carried : FileMetadata}
    (hok : (metaRead target w).1 = .ok carried) : carried = .of nt := by
  have hlooked := World.lstat_looked target w
  have hstat := @Stands.perform own w t nt target _ (.lstat target) (Filesystem.lstat target) h
  unfold metaRead at hok
  unfold World.lstat at hok hlooked
  generalize w.perform (.lstat target) (Filesystem.lstat target) = step at hok hlooked hstat
  obtain ⟨r, w₁⟩ := step
  rcases hstat with ⟨e, rfl, -⟩ | ⟨⟨i, n⟩, fs, fs', rfl, hthere, hop⟩
  · cases hok
  obtain ⟨-, hfound⟩ := lstat_ok hop
  rw [hthere] at hfound
  cases hfound
  have hxattrs := fun read => @readXattrs_ok own t nt target hsound xattrAttempts w₁ read
    (h.looked hlooked) (by rw [show w₁.outside = w.outside from hlooked.outside]; exact hsupport)
  simp only at hok
  generalize readXattrs target xattrAttempts w₁ = step at hok hxattrs
  obtain ⟨r, w₂⟩ := step
  cases r with
  | error e => cases hok
  | ok xattrs =>
    cases hok
    obtain rfl := hxattrs xattrs rfl
    rfl

/-! ## Writing -/

/-- What `meta::apply` is to leave of a file. -/
def FileMetadata.onto (carried : FileMetadata) (n : Node) : Node :=
  let owned := if n.uid ≠ carried.uid ∨ n.gid ≠ carried.gid then
      n.chown carried.uid carried.gid
    else n
  { (owned.chmod (carried.mode % 4096)).setXattrs carried.xattrs with
    atime := carried.atime, mtime := carried.mtime }

/-- A change of the clone through its descriptor that succeeds, whatever its `ctime` was. -/
theorem change_ctime (hk : Spares w.outside own) {c : InodeId} (hc : c ∈ own) {n : Node}
    {names : Set Path} {ctime : Timespec} (hhas : w.fs.Has c { n with ctime := ctime } names)
    {call : Syscall} {f g : Node → Node}
    (hf : ∀ n ctime, ∃ ctime', f { n with ctime := ctime } = { g n with ctime := ctime' })
    {w' : World} (h : w.perform call (change c f) = (.ok (), w')) :
    Spares w'.outside own ∧ ∃ ctime', w'.fs.Has c { g n with ctime := ctime' } names := by
  obtain ⟨-, hok⟩ := change_step hk hc hhas call f
  have hran := perform_ran call (change c f) w
  rw [h] at hok hran
  obtain ⟨ctime', heq⟩ := hf n ctime
  exact ⟨hran.keeps hk, ctime', by rw [← heq]; exact hok rfl⟩

theorem applyXattrs_ok {c : InodeId} (hc : c ∈ own) {names : Set Path} (path : Path) :
    ∀ {xattrs : List (Bytes × Bytes)} {w w' : World} {n : Node} {ctime : Timespec},
      Spares w.outside own → w.fs.Has c { n with ctime := ctime } names →
      applyXattrs path c xattrs w = (.ok (), w') →
      Spares w'.outside own ∧
        ∃ ctime', w'.fs.Has c { n.setXattrs xattrs with ctime := ctime' } names
  | [], w, w', n, ctime, hk, hhas, h => by
    cases h
    exact ⟨hk, ctime, hhas⟩
  | (name, value) :: xattrs, w, w', n, ctime, hk, hhas, h => by
    unfold applyXattrs at h
    cases hset : w.setXattr c name value with
    | mk r w₁ =>
    rw [hset] at h
    cases r with
    | error e => cases h
    | ok a =>
      obtain ⟨hk₁, ctime₁, hhas₁⟩ := change_ctime hk hc hhas
        (g := fun n => n.setXattr name value)
        (fun m ct => ⟨_, by rw [Node.setXattr_ctime]⟩) hset
      exact applyXattrs_ok (n := n.setXattr name value) hc path hk₁ hhas₁ h

/-- The steps of a `meta::apply` that succeeds. -/
theorem metaApply_steps {path : Path} {carried : FileMetadata} {w' : World}
    (h : metaApply path carried w = (.ok (), w')) : ∃ file current w₁ w₂ w₃ w₄,
      w.openFile path = (.ok (file, current), w₁) ∧
      applyOwner file current carried w₁ = (.ok (), w₂) ∧
      w₂.chmod file (carried.mode % 4096) = (.ok (), w₃) ∧
      applyXattrs path file carried.xattrs w₃ = (.ok (), w₄) ∧
      w₄.utimens file carried.atime carried.mtime = (.ok (), w') := by
  unfold metaApply at h
  rcases hopen : w.openFile path with ⟨_ | ⟨file, current⟩, w₁⟩
  · rw [hopen] at h
    cases h
  rw [hopen] at h
  simp only at h
  split at h
  · cases h
  rcases howner : applyOwner file current carried w₁ with ⟨_ | _, w₂⟩
  · rw [howner] at h
    cases h
  rw [howner] at h
  simp only at h
  rcases hmode : w₂.chmod file (carried.mode % 4096) with ⟨_ | _, w₃⟩
  · rw [hmode] at h
    cases h
  rw [hmode] at h
  simp only at h
  rcases hxattrs : applyXattrs path file carried.xattrs w₃ with ⟨_ | _, w₄⟩
  · rw [hxattrs] at h
    cases h
  rw [hxattrs] at h
  simp only at h
  rcases htimes : w₄.utimens file carried.atime carried.mtime with ⟨_ | _, w₅⟩
  · rw [htimes] at h
    cases h
  rw [htimes] at h
  cases h
  exact ⟨file, current, w₁, w₂, w₃, w₄, rfl, howner, hmode, hxattrs, htimes⟩

/-- **`meta::apply` writes the carried identity over what the clone came with.** -/
theorem metaApply_ok (hk : Spares w.outside own) {c : InodeId} (hc : c ∈ own) {n : Node}
    {names : Set Path} (hhas : w.fs.Has c n names) {path : Path} (hpath : path ∈ names)
    {carried : FileMetadata} {w' : World} (h : metaApply path carried w = (.ok (), w')) :
    ∃ ctime, w'.fs.Has c { carried.onto n with ctime := ctime } names := by
  obtain ⟨file, current, w₁, w₂, w₃, w₄, hopen, howner, hmode, hxattrs, htimes⟩ :=
    metaApply_steps h
  have hlooked := openFile_looked path w
  have hfound := @Stands.perform own w c n path _ (.openFile path) (Filesystem.openFile path)
    ⟨hk, hc, hhas.lookup hpath⟩
  unfold World.openFile at hopen hlooked
  rw [hopen] at hlooked hfound
  rcases hfound with ⟨e, he, -⟩ | ⟨⟨file', current'⟩, fs, fs', ha, hthere, hop⟩
  · cases he
  cases ha
  obtain ⟨-, hfound⟩ := Filesystem.openFile_ok hop
  rw [hthere] at hfound
  cases hfound
  have hk₁ : Spares w₁.outside own := hlooked.toTraced.keeps hk
  have hhas₁ : w₁.fs.Has c n names := hlooked.keeps _ hk c hc n names hhas
  have hstep₂ : Spares w₂.outside own ∧ ∃ ctime, w₂.fs.Has c
      { (if n.uid ≠ carried.uid ∨ n.gid ≠ carried.gid then n.chown carried.uid carried.gid
        else n) with ctime := ctime } names := by
    unfold applyOwner at howner
    split at howner
    · rename_i hne
      rw [if_pos hne]
      exact change_ctime (g := fun n => n.chown carried.uid carried.gid) hk₁ hc hhas₁
        (fun m ct => ⟨_, rfl⟩) howner
    · rename_i hsame
      cases howner
      rw [if_neg hsame]
      exact ⟨hk₁, n.ctime, hhas₁⟩
  obtain ⟨hk₂, ctime₂, hhas₂⟩ := hstep₂
  obtain ⟨hk₃, ctime₃, hhas₃⟩ := change_ctime hk₂ hc hhas₂
    (g := fun n => n.chmod (carried.mode % 4096)) (fun m ct => ⟨_, rfl⟩) hmode
  obtain ⟨hk₄, ctime₄, hhas₄⟩ := applyXattrs_ok hc path hk₃ hhas₃ hxattrs
  obtain ⟨-, hhas₅⟩ := change_ctime hk₄ hc hhas₄
    (g := fun n => { n with atime := carried.atime, mtime := carried.mtime })
    (fun m ct => ⟨_, rfl⟩) htimes
  exact hhas₅

/-! ## What comes of the two -/

/-- The clone came with no attribute under a name that the target has none under. -/
def BringsNoMore (brought : List (Bytes × Bytes)) (target : Node) : Prop :=
  ∀ x ∈ brought, x.1 ∈ target.xattrs.map Prod.fst

instance (brought : List (Bytes × Bytes)) (target : Node) : Decidable (BringsNoMore brought target) :=
  inferInstanceAs (Decidable (∀ x ∈ brought, x.1 ∈ target.xattrs.map Prod.fst))

/-- **The identity is carried exactly when the clone brings nothing more.**  Owner, mode and times
    are carried either way. -/
theorem sameIdentity_onto_iff (hsound : nt.Sound) (clone : Node) (ctime : Timespec) :
    nt.SameIdentity { (FileMetadata.of nt).onto clone with ctime := ctime } ↔
      BringsNoMore clone.xattrs nt := by
  have hmode : nt.mode % 4096 = nt.mode := Nat.mod_eq_of_lt hsound.mode
  obtain ⟨owned, howned, huid, hgid, hxattrs⟩ : ∃ owned : Node,
      (if clone.uid ≠ nt.uid ∨ clone.gid ≠ nt.gid then clone.chown nt.uid nt.gid else clone) =
        owned ∧ owned.uid = nt.uid ∧ owned.gid = nt.gid ∧ owned.xattrs = clone.xattrs := by
    refine ⟨_, rfl, ?_⟩
    split
    · exact ⟨rfl, rfl, rfl⟩
    · rename_i hsame
      rw [not_or, not_not, not_not] at hsame
      exact ⟨hsame.1, hsame.2, rfl⟩
  have honto : (FileMetadata.of nt).onto clone =
      { owned.chmod nt.mode with
        xattrs := ((owned.chmod nt.mode).xattrs.filter
          fun x => decide (x.1 ∉ nt.xattrs.map Prod.fst)) ++ nt.xattrs
        atime := nt.atime, mtime := nt.mtime } := by
    have hwritten := @Node.setXattrs_eq nt.xattrs (owned.chmod nt.mode) hsound.names hsound.acl
    unfold FileMetadata.onto FileMetadata.of
    simp only
    rw [howned, hmode, hwritten]
  rw [honto]
  have hnames := Node.names_chmod nt.mode owned
  rw [hxattrs] at hnames
  constructor
  · intro h x hx
    by_contra hne
    -- an attribute the target has none under outlives the writes
    have hmem : x.1 ∈ (owned.chmod nt.mode).xattrs.map Prod.fst := by
      rw [hnames]
      exact List.mem_map.2 ⟨x, hx, rfl⟩
    obtain ⟨y, hy, hyx⟩ := List.mem_map.1 hmem
    have hthere : y ∈ nt.xattrs := (h.xattrs y).1 <| List.mem_append_left _ <|
      List.mem_filter.2 ⟨hy, by rw [hyx]; exact decide_eq_true hne⟩
    exact hne (by rw [← hyx]; exact List.mem_map.2 ⟨y, hthere, rfl⟩)
  · intro h
    refine ⟨huid, hgid, rfl, rfl, rfl, fun x => ?_⟩
    have hnone : (owned.chmod nt.mode).xattrs.filter
        (fun x => decide (x.1 ∉ nt.xattrs.map Prod.fst)) = [] := by
      refine List.filter_eq_nil_iff.2 fun y hy => ?_
      have hy' : y.1 ∈ clone.xattrs.map Prod.fst := by
        rw [← hnames]
        exact List.mem_map.2 ⟨y, hy, rfl⟩
      obtain ⟨z, hz, hzy⟩ := List.mem_map.1 hy'
      have := h z hz
      rw [hzy] at this
      simp only [this, not_true_eq_false, decide_false, Bool.false_eq_true, not_false_eq_true]
    show x ∈ _ ++ nt.xattrs ↔ x ∈ nt.xattrs
    rw [hnone, List.nil_append]

/-! ## The clone under its temporary name -/

/-- The build of `publish_clone` leaves every file there was alone, and its clone as `meta::apply`
    wrote it. -/
theorem cloneBuild_onto (hk : Spares w.outside own)
    (hclones : ∀ d n, (⟨d, w.outside.inode n⟩ : InodeId) ∈ own) (keeper : Path)
    (carried : FileMetadata) (temp : Path) :
    Untouched own w.fs (cloneBuild keeper carried temp w).2.fs ∧
      ((cloneBuild keeper carried temp w).1 = .ok () → ∃ c nc ctime, w.fs.nodes c = none ∧
        nc.xattrs = w.outside.creator.xattrs ∧
        BuiltHas own temp w.fs (cloneBuild keeper carried temp w).2.fs c
          { carried.onto nc with ctime := ctime } ∅) := by
  have hran : Ran w (w.cloneFile keeper temp).2 := perform_ran _ _ w
  have hclone := hk.perform (.clone keeper temp)
    (clone w.now w.outside.creator (w.outside.inode w.tick) keeper temp)
  unfold cloneBuild
  unfold World.cloneFile at hran ⊢
  generalize w.perform (.clone keeper temp)
    (clone w.now w.outside.creator (w.outside.inode w.tick) keeper temp) = step at hran hclone
  obtain ⟨result, w₁⟩ := step
  simp only at hran hclone
  rcases hclone with ⟨e, rfl, hu⟩ | ⟨a, fs₁, rfl, hu, hop⟩
  · exact ⟨hu, nofun⟩
  obtain ⟨i, n, nc, -, -, hfresh, -, -, -, -, hxattrs, hC, hrest⟩ := clone_new hop
  have hc : (⟨i.device, w.outside.inode w.tick⟩ : InodeId) ∈ own := hclones _ _
  have hfresh₀ : w.fs.nodes ⟨i.device, w.outside.inode w.tick⟩ = none := by
    by_contra hne
    obtain ⟨m, hm⟩ := Option.ne_none_iff_exists'.1 hne
    have := hu _ hc m {p | w.fs.entries p = some _} ⟨hm, fun _ => Iff.rfl⟩
    rw [this.node] at hfresh
    cases hfresh
  have hstart : Untouched own w.fs w₁.fs := hu.trans (hrest.mono (Set.subset_univ own))
  have hk₁ := hran.keeps hk
  have hmeta := (metaApply_has hk₁ hc hC (Set.mem_singleton temp) carried).1
  refine ⟨fun j hj m names hhas => ?_, fun h => ?_⟩
  · have hne : j ≠ ⟨i.device, w.outside.inode w.tick⟩ := fun he => by
      rw [he] at hhas
      rw [hhas.node] at hfresh₀
      cases hfresh₀
    exact hmeta j ⟨hj, hne⟩ m names (hstart j hj m names hhas)
  · obtain ⟨ctime, hhas⟩ := metaApply_ok hk₁ hc hC (Set.mem_singleton temp)
      (show metaApply temp carried w₁ = (.ok (), (metaApply temp carried w₁).2) from
        Prod.ext h rfl)
    refine ⟨_, nc, ctime, hfresh₀, hxattrs, hc, ?_, Set.notMem_empty temp,
      (hstart.mono Set.sdiff_subset).trans hmeta⟩
    rw [insert_empty_eq]
    exact hhas

/-- What `reflink` does before anything moves: `meta::read` of the target, the clone, `meta::apply`
    to it under its temporary name. -/
def prepareClone (target keeper : Path) (w : World) : Except AppError Path × World :=
  match metaRead target w with
  | (.error e, w) => (.error e, w)
  | (.ok carried, w) =>
    match target.parent with
    | none => (.error ⟨"target file has no parent directory"⟩, w)
    | some parent =>
      match stagingPath parent target.fileName w with
      | (temp, w) =>
        match cloneBuild keeper carried temp w with
        | (.error e, w) => (.error e, w)
        | (.ok (), w) => (.ok temp, w)

/-- A clone that was made carries the target's identity onto what it came with. -/
theorem prepareClone_ok (h : Stands own target t nt w)
    (hclones : ∀ d n, (⟨d, w.outside.inode n⟩ : InodeId) ∈ own) (hsound : nt.Sound)
    (hsupport : w.outside.SupportsXattrs target nt) {keeper temp : Path}
    (hok : (prepareClone target keeper w).1 = .ok temp) : ∃ c nc ctime,
      nc.xattrs = w.outside.creator.xattrs ∧
      (prepareClone target keeper w).2.fs.lookup temp =
        some (c, { (FileMetadata.of nt).onto nc with ctime := ctime }) := by
  have hlooked := metaRead_looked target w
  have hread := fun carried => @metaRead_ok own w t nt target h hsound hsupport carried
  unfold prepareClone at hok ⊢
  generalize metaRead target w = step at hlooked hread hok ⊢
  obtain ⟨r, w₁⟩ := step
  cases r with
  | error e => cases hok
  | ok carried =>
  obtain rfl := hread carried rfl
  cases hparent : target.parent with
  | none =>
    simp only [hparent] at hok
    cases hok
  | some parent =>
  simp only [hparent, stagingPath] at hok ⊢
  have hbuilt := (cloneBuild_onto (w := { w₁ with stagingSeq := w₁.stagingSeq + 1 })
    (hlooked.toTraced.keeps h.spares)
    (by rw [show ({ w₁ with stagingSeq := w₁.stagingSeq + 1 } : World).outside = w.outside from
          hlooked.outside]
        exact hclones) keeper (.of nt) (w₁.stagingAt parent target.fileName)).2
  generalize cloneBuild keeper (.of nt) (w₁.stagingAt parent target.fileName)
    { w₁ with stagingSeq := w₁.stagingSeq + 1 } = step at hok hbuilt ⊢
  obtain ⟨r, w₂⟩ := step
  cases r with
  | error e => cases hok
  | ok a =>
    cases hok
    obtain ⟨c, nc, ctime, -, hxattrs, hb⟩ := hbuilt rfl
    refine ⟨c, nc, ctime, hxattrs.trans ?_, hb.has.lookup (Set.mem_insert _ _)⟩
    exact congrArg (fun o => o.creator.xattrs) hlooked.outside

theorem Publication.exists_of_isPublished {p : Publication} (h : p.isPublished = true) :
    ∃ q, p = .published q := by
  cases p with
  | published q => exact ⟨q, rfl⟩
  | notMoved detail => cases h
  | rolledBack detail => cases h
  | stranded q detail => cases h

/-- A publication that succeeds puts such a clone in the target's place. -/
theorem reflink_published (h : Stands own target t nt w)
    (hclones : ∀ d n, (⟨d, w.outside.inode n⟩ : InodeId) ∈ own) (hsound : nt.Sound)
    (hsupport : w.outside.SupportsXattrs target nt) {keeper mountpoint dir q : Path}
    (hok : (reflink target keeper mountpoint dir w).1 = .published q) : ∃ c nc ctime,
      nc.xattrs = w.outside.creator.xattrs ∧
      (reflink target keeper mountpoint dir w).2.fs.lookup target =
        some (c, { (FileMetadata.of nt).onto nc with ctime := ctime }) := by
  have hpublished : (reflink target keeper mountpoint dir w).1.isPublished = true := by
    rw [hok]
    rfl
  have hlooked := metaRead_looked target w
  have hread := fun carried => @metaRead_ok own w t nt target h hsound hsupport carried
  have h₁ := h.looked hlooked
  unfold reflink at hpublished ⊢
  generalize metaRead target w = step at hlooked hread h₁ hpublished ⊢
  obtain ⟨r, w₁⟩ := step
  cases r with
  | error e => cases hpublished
  | ok carried =>
  obtain rfl := hread carried rfl
  simp only at hlooked h₁ hpublished ⊢
  obtain ⟨temp, hpub, hworld⟩ := evacuateThenPublish_published hpublished
  rw [hworld]
  obtain ⟨hT, hmem⟩ := has_of_lookup h₁.lookup
  have hran := (cloneBuild_builds keeper (.of nt)).ran temp
    { w₁ with stagingSeq := w₁.stagingSeq + 1 }
  have hbuilt := (cloneBuild_onto (w := { w₁ with stagingSeq := w₁.stagingSeq + 1 }) h₁.spares
    (by rw [show ({ w₁ with stagingSeq := w₁.stagingSeq + 1 } : World).outside = w.outside from
          hlooked.outside]
        exact hclones) keeper (.of nt) temp).2 (publishAt_built hpub)
  obtain ⟨c, nc, ctime, hfresh, hxattrs, hb⟩ := hbuilt
  have htc : t ≠ c := by
    rintro rfl
    have hnode := hT.node
    rw [show w₁.fs.nodes t = none from hfresh] at hnode
    cases hnode
  obtain ⟨-, -, ctime', hC⟩ := publishAt_published
    (w := { w₁ with stagingSeq := w₁.stagingSeq + 1 }) h₁.spares h₁.mem htc hT hmem hran
    (fun _ => hb) hpub
  refine ⟨c, nc, ctime', hxattrs.trans ?_, hC.lookup (Set.mem_insert _ _)⟩
  exact congrArg (fun o => o.creator.xattrs) hlooked.outside

/-! ## The cleanup of a build that failed -/

theorem untouched_singleton {fs fs' : Filesystem} {n : Node} {names : Set Path}
    (h : fs.Has t n names) : Untouched {t} fs fs' ↔ fs'.Has t n names := by
  refine ⟨fun hu => hu t rfl n names h, ?_⟩
  rintro h' i rfl m names' hm
  have hn : m = n := Option.some.inj (hm.node.symm.trans h.node)
  have hnames : names' = names := Set.ext fun p => (hm.names p).symm.trans (h.names p)
  rw [hn, hnames]
  exact h'

/-- The cleanup takes a pathname of the target's exactly when the temporary name is one. -/
theorem removeFile_untouched_iff (h : Stands own target t nt w) (temp : Path) :
    Untouched {t} w.fs (w.removeFile temp).2.fs ↔
      w.fs.entries temp ≠ some t ∨ w.outside.fault w.tick (.unlink temp) ≠ none := by
  obtain ⟨hT, -⟩ := has_of_lookup h.lookup
  have hthere := h.spares.enter (.unlink temp) t h.mem nt _ hT
  rw [untouched_singleton hT]
  unfold World.removeFile
  rcases w.perform_cases (.unlink temp) (unlink w.now temp) with
    ⟨e, hp, hwhy⟩ | ⟨a, fs, hp, hfault, hop⟩
  · rw [hp]
    refine iff_of_true hthere ?_
    rcases hwhy with hfault | ⟨-, hop⟩
    · exact .inr (by rw [hfault]; exact Option.some_ne_none e)
    · refine .inl fun htemp => ?_
      unfold unlink at hop
      rw [hthere.lookup (show temp ∈ {q | w.fs.entries q = some t} from htemp)] at hop
      cases hop
  · rw [hp]
    obtain ⟨i, n, hi, -, hentries, -⟩ := unlink_ok hop
    rw [or_iff_left (not_not.2 hfault)]
    refine ⟨fun hafter htemp => ?_, fun htemp => ?_⟩
    · have hcleared := (hafter.names temp).2 htemp
      rw [show ({ w.enter (.unlink temp) with fs := fs } : World).fs.entries = fs.entries from rfl,
        hentries, Function.update_self] at hcleared
      cases hcleared
    · refine (unlink_has hop hi).2 t (fun hit => htemp ?_) nt _ hthere
      rw [← hit] at hi
      exact (hthere.names temp).1 hi

/-- The temporary name is no pathname of the target's file, or the cleanup cannot unlink it. -/
def CleanupSpares (t : InodeId) (target keeper : Path) (w : World) : Prop :=
  ∀ carried parent, (metaRead target w).1 = .ok carried → target.parent = some parent →
    let temp := (metaRead target w).2.stagingAt parent target.fileName
    let built := (prepareClone target keeper w).2
    w.fs.entries temp ≠ some t ∨ built.outside.fault built.tick (.unlink temp) ≠ none

/-- **A preparation that fails publishes nothing.**  The target's file is untouched unless the
    cleanup takes one of its pathnames. -/
theorem reflink_refused (h : Stands own target t nt w)
    (hclones : ∀ d n, (⟨d, w.outside.inode n⟩ : InodeId) ∈ own) {keeper : Path} {e : AppError}
    (herror : (prepareClone target keeper w).1 = .error e) (mountpoint dir : Path) :
    (∃ detail, (reflink target keeper mountpoint dir w).1 = .notMoved detail) ∧
      (Untouched {t} w.fs (reflink target keeper mountpoint dir w).2.fs ↔
        CleanupSpares t target keeper w) := by
  have hlooked := metaRead_looked target w
  have h₁ := h.looked hlooked
  obtain ⟨hT, -⟩ := has_of_lookup h.lookup
  have hread : Untouched {t} w.fs (metaRead target w).2.fs :=
    (hlooked.keeps _ h.spares).mono (Set.singleton_subset_iff.2 h.mem)
  unfold CleanupSpares
  unfold prepareClone at herror ⊢
  unfold reflink
  generalize metaRead target w = step at hlooked h₁ hread herror ⊢
  obtain ⟨r, w₁⟩ := step
  cases r with
  | error e' => exact ⟨⟨_, rfl⟩, iff_of_true hread nofun⟩
  | ok carried =>
  unfold evacuateThenPublish
  cases hparent : target.parent with
  | none => exact ⟨⟨_, rfl⟩, iff_of_true hread fun _ _ _ h => nomatch h⟩
  | some parent =>
  simp only [hparent, stagingPath] at herror ⊢
  have hbuild := (cloneBuild_onto (w := { w₁ with stagingSeq := w₁.stagingSeq + 1 }) h₁.spares
    (by rw [show ({ w₁ with stagingSeq := w₁.stagingSeq + 1 } : World).outside = w.outside from
          hlooked.outside]
        exact hclones) keeper carried (w₁.stagingAt parent target.fileName)).1
  have hran := (cloneBuild_builds keeper carried).ran (w₁.stagingAt parent target.fileName)
    { w₁ with stagingSeq := w₁.stagingSeq + 1 }
  unfold publishAt
  generalize cloneBuild keeper carried (w₁.stagingAt parent target.fileName)
    { w₁ with stagingSeq := w₁.stagingSeq + 1 } = step at hbuild hran herror ⊢
  obtain ⟨r, w₂⟩ := step
  cases r with
  | ok a => cases herror
  | error e' =>
  simp only at hbuild hran ⊢
  have h₂ : Stands own target t nt w₂ :=
    ⟨hran.keeps h₁.spares, h.mem, hbuild.lookup h.mem h₁.lookup⟩
  have hT₂ : w₂.fs.Has t nt {q | w.fs.entries q = some t} :=
    hbuild t h.mem _ _ (hread t rfl _ _ hT)
  have hsame : ∀ p, w₂.fs.entries p = some t ↔ w.fs.entries p = some t := fun p => hT₂.names p
  refine ⟨⟨_, rfl⟩, ?_⟩
  have hcleanup := removeFile_untouched_iff h₂ (w₁.stagingAt parent target.fileName)
  rw [untouched_singleton hT₂, Ne, hsame] at hcleanup
  rw [untouched_singleton hT, hcleanup]
  refine ⟨fun hspares _ _ _ hp => ?_, fun hspares => hspares carried parent rfl rfl⟩
  cases hp
  exact hspares

/-! ## The clone and the file it replaces -/

/-- What `reflink` owes the file it replaces: a clone that was made, and one that was published,
    has the file's identity, and where none was made nothing is published and the file is
    untouched. -/
structure CarriesIdentity (target keeper mountpoint dir : Path) (t : InodeId) (nt : Node)
    (w : World) : Prop where
  carried : ∀ temp, (prepareClone target keeper w).1 = .ok temp → ∃ c nc,
    (prepareClone target keeper w).2.fs.lookup temp = some (c, nc) ∧ nt.SameIdentity nc
  published : ∀ q, (reflink target keeper mountpoint dir w).1 = .published q → ∃ c nc,
    (reflink target keeper mountpoint dir w).2.fs.lookup target = some (c, nc) ∧
      nt.SameIdentity nc
  refused : ∀ e, (prepareClone target keeper w).1 = .error e →
    (∃ detail, (reflink target keeper mountpoint dir w).1 = .notMoved detail) ∧
      Untouched {t} w.fs (reflink target keeper mountpoint dir w).2.fs

/-- **A clone carries the identity of the file it replaces exactly when it came with no attribute
    under a name of its own**, and a clone that could not be made leaves the file untouched unless
    its temporary name was one of the file's. -/
theorem carriesIdentity_iff (hk : Spares w.outside own)
    (hclones : ∀ d n, (⟨d, w.outside.inode n⟩ : InodeId) ∈ own) (ht : t ∈ own)
    (htarget : w.fs.lookup target = some (t, nt)) (hsound : nt.Sound)
    (hsupport : w.outside.SupportsXattrs target nt) (keeper mountpoint dir : Path) :
    ((∃ temp, (prepareClone target keeper w).1 = .ok temp) →
        (CarriesIdentity target keeper mountpoint dir t nt w ↔
          BringsNoMore w.outside.creator.xattrs nt)) ∧
      ((∃ e, (prepareClone target keeper w).1 = .error e) →
        (CarriesIdentity target keeper mountpoint dir t nt w ↔
          CleanupSpares t target keeper w)) := by
  have h : Stands own target t nt w := ⟨hk, ht, htarget⟩
  refine ⟨?_, ?_⟩
  · rintro ⟨temp, hok⟩
    constructor
    · intro hholds
      obtain ⟨c, nc, ctime, hxattrs, hlookup⟩ := prepareClone_ok h hclones hsound hsupport hok
      obtain ⟨c', nc', hlookup', hsame⟩ := hholds.carried temp hok
      rw [hlookup] at hlookup'
      cases hlookup'
      rw [← hxattrs]
      exact (sameIdentity_onto_iff hsound nc ctime).1 hsame
    · intro hbrings
      refine ⟨fun temp' hok' => ?_, fun q hq => ?_, fun e he => ?_⟩
      · obtain ⟨c, nc, ctime, hxattrs, hlookup⟩ := prepareClone_ok h hclones hsound hsupport hok'
        exact ⟨c, _, hlookup,
          (sameIdentity_onto_iff hsound nc ctime).2 (by rw [hxattrs]; exact hbrings)⟩
      · obtain ⟨c, nc, ctime, hxattrs, hlookup⟩ := reflink_published h hclones hsound hsupport hq
        exact ⟨c, _, hlookup,
          (sameIdentity_onto_iff hsound nc ctime).2 (by rw [hxattrs]; exact hbrings)⟩
      · rw [hok] at he
        cases he
  · rintro ⟨e, herror⟩
    obtain ⟨⟨detail, hnot⟩, huntouched⟩ := reflink_refused h hclones herror mountpoint dir
    refine ⟨fun hholds => huntouched.1 (hholds.refused e herror).2, fun hspares =>
      ⟨fun temp hok => ?_, fun q hq => ?_, fun _ _ => ⟨⟨detail, hnot⟩, huntouched.2 hspares⟩⟩⟩
    · rw [herror] at hok
      cases hok
    · rw [hnot] at hq
      cases hq

/-! ## A directory that hands an access control list on -/

/-- `user::rw-`, `user:1000:rwx`, `group::r--`, `other::r--`, under this mask. -/
def sharedEntries (mask : Byte) : List Acl.Entry :=
  [⟨1, 0, 6, 0, 255, 255, 255, 255⟩, ⟨2, 0, 7, 0, 232, 3, 0, 0⟩, ⟨4, 0, 4, 0, 255, 255, 255, 255⟩,
    ⟨16, 0, mask, 0, 255, 255, 255, 255⟩, ⟨32, 0, 4, 0, 255, 255, 255, 255⟩]

/-- A file made with the mode 0666 where that list is handed on: the mask is cut to `rw-`, and the
    mode is 0664. -/
def sharedCreator : Filesystem.Creator :=
  ⟨0, 0, 436, [(Acl.access, Acl.encode (sharedEntries 6))]⟩

theorem fits_sharedCreator : ∀ x ∈ sharedCreator.xattrs, Acl.Fits sharedCreator.mode x.2 := by
  intro x hx
  rw [List.mem_singleton.1 hx]
  exact ⟨sharedEntries 6, Acl.decode_encode _, by decide, by decide, by decide⟩

/-- `/a`, and `/b` with the node `b`. -/
def pairDisk (b : Node) : Filesystem where
  entries := sampleDisk.entries
  nodes := Function.update sampleDisk.nodes ⟨7, 9⟩ (some b)
  live p i h := by
    by_cases hi : i = ⟨7, 9⟩
    · rw [hi, Function.update_self]
      rfl
    · rw [Function.update_of_ne hi]
      exact sampleDisk.live p i h

/-- The files made here come with that list. -/
def sharedRun (b : Node) : World :=
  { startIn (pairDisk b) with
    outside := { quietOutside with creator := sharedCreator } }

theorem spares_sharedRun (b : Node) : Spares (sharedRun b).outside Set.univ :=
  ⟨Untouched.refl _, Untouched.trans, fun _ _ => Untouched.refl _ _⟩

/-- A set-user-ID file of another owner, under such a list with the mask `rwx`. -/
def sharedNode : Node :=
  { sampleNode with
    uid := 1000, gid := 100, mode := 2492
    xattrs := [(Acl.access, Acl.encode (sharedEntries 7)), ([117, 115, 101, 114, 46, 97], [1])] }

theorem sound_sampleNode : sampleNode.Sound :=
  ⟨by decide, by decide, by decide, fun _ h => by cases h⟩

theorem sound_sharedNode : sharedNode.Sound := by
  refine ⟨by decide, by decide, by decide, fun value h => ?_⟩
  have hne : Acl.access ≠ [117, 115, 101, 114, 46, 97] := by decide
  have hvalue : value = Acl.encode (sharedEntries 7) := by
    rcases List.mem_cons.1 h with h | h
    · exact congrArg Prod.snd h
    · exact absurd (congrArg Prod.fst (List.mem_singleton.1 h)) hne
  rw [hvalue]
  exact ⟨sharedEntries 7, Acl.decode_encode _, by decide, by decide, by decide⟩

/-- Its clone came with a list, and the list written over it is its own. -/
theorem carriesIdentity_sharedNode :
    CarriesIdentity (rootFile 98 isName_b) (rootFile 97 isName_a) [.rootDir]
      (quarantineDir [.rootDir] stagingItem) ⟨7, 9⟩ sharedNode (sharedRun sharedNode) :=
  ((carriesIdentity_iff (spares_sharedRun _) (fun _ _ => trivial) trivial (by decide)
    sound_sharedNode (fun _ _ h => by cases h) _ _ _).1 ⟨_, by rfl⟩).2 (by decide)

/-- A file without a list comes back with the directory's. -/
theorem not_carriesIdentity :
    (sharedRun sampleNode).fs.lookup (rootFile 98 isName_b) = some (⟨7, 9⟩, sampleNode) ∧
    Spares (sharedRun sampleNode).outside Set.univ ∧ sampleNode.Sound ∧
    (∀ x ∈ (sharedRun sampleNode).outside.creator.xattrs,
      Acl.Fits (sharedRun sampleNode).outside.creator.mode x.2) ∧
    ((reflink (rootFile 98 isName_b) (rootFile 97 isName_a) [.rootDir]
      (quarantineDir [.rootDir] stagingItem) (sharedRun sampleNode)).1.isPublished = true) ∧
    ¬ CarriesIdentity (rootFile 98 isName_b) (rootFile 97 isName_a) [.rootDir]
      (quarantineDir [.rootDir] stagingItem) ⟨7, 9⟩ sampleNode (sharedRun sampleNode) := by
  have hpublished : (reflink (rootFile 98 isName_b) (rootFile 97 isName_a) [.rootDir]
      (quarantineDir [.rootDir] stagingItem) (sharedRun sampleNode)).1.isPublished = true := by
    decide
  have hxattrs : ((reflink (rootFile 98 isName_b) (rootFile 97 isName_a) [.rootDir]
      (quarantineDir [.rootDir] stagingItem) (sharedRun sampleNode)).2.fs.lookup
        (rootFile 98 isName_b)).map (fun found => found.2.xattrs.map Prod.fst) =
      some [Acl.access] := by decide
  refine ⟨by decide, spares_sharedRun _, sound_sampleNode, fits_sharedCreator, hpublished,
    fun h => ?_⟩
  obtain ⟨q, hq⟩ := Publication.exists_of_isPublished hpublished
  obtain ⟨c, nc, hlookup, hsame⟩ := h.published q hq
  rw [hlookup, Option.map_some, Option.some.injEq] at hxattrs
  have hmem : Acl.access ∈ nc.xattrs.map Prod.fst := by
    rw [hxattrs]
    exact List.mem_singleton_self _
  obtain ⟨x, hx, -⟩ := List.mem_map.1 hmem
  cases (hsame.xattrs x).1 hx

end DedupCommando
