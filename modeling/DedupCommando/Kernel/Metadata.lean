import DedupCommando.Kernel.Filesystem

/-!
# The attributes of a file under the kernel's rules

* `Node.Sound` — what the kernel keeps true of a file's mode and attributes; `Sound.chown`,
  `Sound.chmod`, `Sound.setXattr`.
* `Node.setXattrs` — attributes written one behind the other, and `setXattrs_eq`: what they make of
  a file whose bits agree with the list among them.
* `Node.SameIdentity` — owner, group, mode, times and the set of attributes.
-/

set_option autoImplicit false

namespace DedupCommando

/-- The attribute says more than permission bits do, and the bits agree with it. -/
def Acl.Fits (mode : Nat) (value : Bytes) : Prop :=
  ∃ es, Acl.decode value = some es ∧ Acl.Valid es ∧ Acl.extended es = true ∧
    Acl.into es mode = mode

theorem Acl.Fits.of_mod {mode mode' : Nat} {value : Bytes} (h : Acl.Fits mode value)
    (heq : mode' % 512 = mode % 512) : Acl.Fits mode' value := by
  obtain ⟨es, hdecode, hvalid, hextended, hinto⟩ := h
  refine ⟨es, hdecode, hvalid, hextended, ?_⟩
  have hold := Nat.div_add_mod' mode 512
  have hbits : Acl.bits es % 512 = mode % 512 :=
    Nat.add_left_cancel (hinto.trans hold.symm)
  show mode' / 512 * 512 + Acl.bits es % 512 = mode'
  rw [hbits, ← heq, Nat.div_add_mod']

namespace Node

/-- What the kernel keeps true of every file: twelve mode bits, attributes under names of their own
    that are no empty strings and hold no NUL, and an access control list that the bits mirror. -/
structure Sound (n : Node) : Prop where
  mode : n.mode < 4096
  names : (n.xattrs.map Prod.fst).Nodup
  plain : ∀ x ∈ n.xattrs, x.1 ≠ [] ∧ (0 : Byte) ∉ x.1
  acl : ∀ value, (Acl.access, value) ∈ n.xattrs → Acl.Fits n.mode value

variable {n : Node}

/-! ## The kernel keeps them -/

theorem clearSetId_spec (mode : Nat) :
    clearSetId mode < 4096 ∧ clearSetId mode % 512 = mode % 512 := by
  unfold clearSetId
  by_cases hgroup : mode / 8 % 2 = 1
  · rw [if_pos hgroup]
    omega
  · rw [if_neg hgroup]
    omega

theorem Sound.chown (h : n.Sound) (uid gid : Nat) : (n.chown uid gid).Sound := by
  obtain ⟨hlt, hmod⟩ := clearSetId_spec n.mode
  exact ⟨hlt, h.names, h.plain, fun value hvalue => (h.acl value hvalue).of_mod hmod⟩

theorem names_chmod (mode : Nat) (n : Node) :
    (n.chmod mode).xattrs.map Prod.fst = n.xattrs.map Prod.fst := by
  show (n.xattrs.map _).map Prod.fst = _
  rw [List.map_map]
  refine List.map_congr_left fun x _ => ?_
  dsimp only [Function.comp]
  split <;> rfl

theorem Sound.chmod (h : n.Sound) {mode : Nat} (hmode : mode < 4096) : (n.chmod mode).Sound := by
  refine ⟨hmode, by rw [names_chmod]; exact h.names, fun x hx => ?_, fun value hvalue => ?_⟩
  · obtain ⟨y, hy, rfl⟩ := List.mem_map.1 hx
    split <;> exact h.plain y hy
  · obtain ⟨⟨name, old⟩, hold, heq⟩ := List.mem_map.1 hvalue
    dsimp only at heq
    split at heq
    · rename_i hname
      subst hname
      cases heq
      obtain ⟨es, hdecode, hvalid, hextended, -⟩ := h.acl old hold
      refine ⟨Acl.remask mode es, ?_, hvalid.remask mode, ?_, ?_⟩
      · unfold Acl.remasked
        rw [hdecode]
        exact Acl.decode_encode _
      · rw [Acl.extended_remask]
        exact hextended
      · show mode / 512 * 512 + Acl.bits (Acl.remask mode es) % 512 = mode
        rw [Acl.bits_remask hvalid]
        omega
    · rename_i hname
      cases heq
      exact absurd rfl hname

theorem Sound.setXattr (h : n.Sound) {name value : Bytes} (hname : name ≠ [] ∧ (0 : Byte) ∉ name)
    (hlist : name = Acl.access → ∃ es, Acl.decode value = some es ∧ Acl.Valid es) :
    (n.setXattr name value).Sound := by
  have hrest : ∀ x ∈ n.xattrs.filter (fun x => decide (x.1 ≠ name)), x ∈ n.xattrs ∧ x.1 ≠ name :=
    fun x hx => by simpa using List.mem_filter.1 hx
  have hnodup : ((n.xattrs.filter fun x => decide (x.1 ≠ name)).map Prod.fst).Nodup :=
    h.names.sublist (List.filter_sublist.map Prod.fst)
  have hadded : (((n.xattrs.filter fun x => decide (x.1 ≠ name)) ++ [(name, value)]).map
      Prod.fst).Nodup := by
    rw [List.map_append, List.map_singleton, List.nodup_append]
    refine ⟨hnodup, List.nodup_singleton _, fun a ha b hb => ?_⟩
    obtain ⟨x, hx, rfl⟩ := List.mem_map.1 ha
    rw [List.mem_singleton.1 hb]
    exact (hrest x hx).2
  have hplain : ∀ x ∈ (n.xattrs.filter fun x => decide (x.1 ≠ name)) ++ [(name, value)],
      x.1 ≠ [] ∧ (0 : Byte) ∉ x.1 := by
    intro x hx
    rcases List.mem_append.1 hx with hx | hx
    · exact h.plain x (hrest x hx).1
    · rw [List.mem_singleton.1 hx]
      exact hname
  unfold Node.setXattr
  by_cases hacl : name = Acl.access
  · obtain ⟨es, hdecode, hvalid⟩ := hlist hacl
    have hinto : Acl.into es (Acl.into es n.mode) = Acl.into es n.mode := by
      unfold Acl.into
      omega
    have hlt : Acl.into es n.mode < 4096 := by
      have := h.mode
      unfold Acl.into
      omega
    simp only [if_pos hacl, hdecode]
    split
    · rename_i hextended
      refine ⟨hlt, hadded, hplain, fun v hv => ?_⟩
      rcases List.mem_append.1 hv with hv | hv
      · exact absurd hacl.symm (hrest _ hv).2
      · cases List.mem_singleton.1 hv
        exact ⟨es, hdecode, hvalid, hextended, hinto⟩
    · exact ⟨hlt, hnodup, fun x hx => h.plain x (hrest x hx).1,
        fun v hv => absurd hacl.symm (hrest _ hv).2⟩
  · simp only [if_neg hacl]
    refine ⟨h.mode, hadded, hplain, fun v hv => ?_⟩
    rcases List.mem_append.1 hv with hv | hv
    · exact h.acl v (hrest _ hv).1
    · cases List.mem_singleton.1 hv
      exact absurd rfl hacl

/-- An attribute that is no access control list, or one the bits agree with, is only added. -/
theorem setXattr_of_fits {name value : Bytes}
    (h : name = Acl.access → Acl.Fits n.mode value) :
    n.setXattr name value =
      { n with xattrs := (n.xattrs.filter fun x => decide (x.1 ≠ name)) ++ [(name, value)] } := by
  unfold setXattr
  by_cases hname : name = Acl.access
  · obtain ⟨es, hdecode, -, hextended, hinto⟩ := h hname
    simp only [if_pos hname, hdecode, if_pos hextended, hinto]
  · simp only [if_neg hname]

/-! ## Attributes written one behind the other -/

def setXattrs (xattrs : List (Bytes × Bytes)) (n : Node) : Node :=
  xattrs.foldl (fun n x => n.setXattr x.1 x.2) n

/-- **What is not written over stays**, and the bits do not move. -/
theorem setXattrs_eq : ∀ {xattrs : List (Bytes × Bytes)} {n : Node},
    (xattrs.map Prod.fst).Nodup → (∀ value, (Acl.access, value) ∈ xattrs → Acl.Fits n.mode value) →
      n.setXattrs xattrs =
        { n with
          xattrs := (n.xattrs.filter fun x => decide (x.1 ∉ xattrs.map Prod.fst)) ++ xattrs }
  | [], n, _, _ => by
    have hall : n.xattrs.filter (fun x => decide (x.1 ∉ ([] : List (Bytes × Bytes)).map Prod.fst)) =
        n.xattrs := List.filter_eq_self.2 fun x _ => by simp
    rw [hall, List.append_nil]
    rfl
  | (name, value) :: xattrs, n, hnodup, hfits => by
    rw [List.map_cons, List.nodup_cons] at hnodup
    obtain ⟨hfresh, hnodup⟩ := hnodup
    have hfirst : name = Acl.access → Acl.Fits n.mode value := fun hname =>
      hfits value (by rw [hname]; exact List.mem_cons_self)
    have hrest := @setXattrs_eq xattrs (n.setXattr name value) hnodup
      (by
        rw [setXattr_of_fits hfirst]
        exact fun v hv => hfits v (List.mem_cons_of_mem _ hv))
    show (n.setXattr name value).setXattrs xattrs = _
    rw [hrest, setXattr_of_fits hfirst]
    have hkept : ((name, value) : Bytes × Bytes).1 ∉ xattrs.map Prod.fst := hfresh
    simp only [List.filter_append, List.filter_filter, List.filter_cons, hkept, not_false_eq_true,
      decide_true, if_true, List.filter_nil, List.append_assoc, List.singleton_append]
    congr 2
    refine List.filter_congr fun x _ => ?_
    rw [← Bool.decide_and]
    refine decide_eq_decide.2 ?_
    rw [List.map_cons, List.mem_cons, not_or, and_comm]

/-- What is written does not depend on the `ctime`. -/
theorem setXattr_ctime (ctime : Timespec) (name value : Bytes) (n : Node) :
    ({ n with ctime := ctime } : Node).setXattr name value =
      { n.setXattr name value with ctime := ctime } := by
  unfold setXattr
  simp only
  split <;> rfl

/-! ## The identity of a file -/

/-- Owner, group, mode bits, times and the set of attributes. -/
structure SameIdentity (n n' : Node) : Prop where
  uid : n'.uid = n.uid
  gid : n'.gid = n.gid
  mode : n'.mode = n.mode
  atime : n'.atime = n.atime
  mtime : n'.mtime = n.mtime
  xattrs : ∀ x, x ∈ n'.xattrs ↔ x ∈ n.xattrs

end Node

end DedupCommando
