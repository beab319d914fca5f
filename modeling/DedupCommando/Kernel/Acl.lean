import DedupCommando.Path

/-!
# POSIX access control lists

What the kernel makes of `system.posix_acl_access`: a list of entries that the permission bits of
its file mirror.

* `decode`, `encode` — the attribute's value.
* `bits` — the permission bits a list stands for.
* `remask` — what `chmod` makes of a list, and `bits_remask`: the two agree again.
-/

set_option autoImplicit false

namespace DedupCommando

namespace Acl

/-- `system.posix_acl_access` -/
def access : Bytes :=
  [115, 121, 115, 116, 101, 109, 46, 112, 111, 115, 105, 120, 95, 97, 99, 108, 95, 97, 99, 99, 101,
    115, 115]

/-- One entry: whom it is about and what he may do; the high bytes are carried along. -/
structure Entry where
  tag : Byte
  tagHigh : Byte
  perm : Byte
  permHigh : Byte
  id : Byte × Byte × Byte × Byte
  deriving DecidableEq

def ofBytes : Bytes → Option (List Entry)
  | [] => some []
  | t :: t' :: p :: p' :: a :: b :: c :: d :: rest =>
    (ofBytes rest).map fun es => ⟨t, t', p, p', (a, b, c, d)⟩ :: es
  | _ => none

def toBytes : List Entry → Bytes
  | [] => []
  | e :: es =>
    e.tag :: e.tagHigh :: e.perm :: e.permHigh :: e.id.1 :: e.id.2.1 :: e.id.2.2.1 :: e.id.2.2.2 ::
      toBytes es

/-- The value of the attribute: a version and the entries. -/
def decode : Bytes → Option (List Entry)
  | 2 :: 0 :: 0 :: 0 :: rest => ofBytes rest
  | _ => none

def encode (es : List Entry) : Bytes := 2 :: 0 :: 0 :: 0 :: toBytes es

def userObj : Byte := 1
def groupObj : Byte := 4
def mask : Byte := 16
def other : Byte := 32

def permOf (tag : Byte) (es : List Entry) : Option Nat :=
  (es.find? fun e => decide (e.tag = tag)).map fun e => e.perm.val

/-- The entry the group bits mirror. -/
def groupClass (es : List Entry) : Byte := if (permOf mask es).isSome then mask else groupObj

/-- The permission bits. -/
def bits (es : List Entry) : Nat :=
  (permOf userObj es).getD 0 * 64 + (permOf (groupClass es) es).getD 0 * 8 +
    (permOf other es).getD 0

/-- The list says more than permission bits do; the kernel stores no other. -/
def extended (es : List Entry) : Bool :=
  es.any fun e => decide (e.tag ≠ userObj ∧ e.tag ≠ groupObj ∧ e.tag ≠ other)

/-- The list names each class. -/
structure Valid (es : List Entry) : Prop where
  owner : (permOf userObj es).isSome = true
  group : (permOf groupObj es).isSome = true
  other : (permOf other es).isSome = true

instance (es : List Entry) : Decidable (Valid es) :=
  decidable_of_iff ((permOf userObj es).isSome = true ∧ (permOf groupObj es).isSome = true ∧
    (permOf Acl.other es).isSome = true) ⟨fun h => ⟨h.1, h.2.1, h.2.2⟩, fun h => ⟨h.1, h.2, h.3⟩⟩

/-- The new permissions of an entry of the list under a new mode. -/
def permUnder (mode : Nat) (group : Byte) (e : Entry) : Byte :=
  if e.tag = userObj then Fin.ofNat 256 (mode / 64 % 8)
  else if e.tag = group then Fin.ofNat 256 (mode / 8 % 8)
  else if e.tag = Acl.other then Fin.ofNat 256 (mode % 8)
  else e.perm

/-- What `chmod` makes of a list. -/
def remask (mode : Nat) (es : List Entry) : List Entry :=
  es.map fun e => { e with perm := permUnder mode (groupClass es) e }

/-- What `chmod` makes of the attribute's value. -/
def remasked (mode : Nat) (value : Bytes) : Bytes :=
  match decode value with
  | some es => encode (remask mode es)
  | none => value

/-- What a list makes of a mode: its permission bits, and the set-id and sticky bits stay. -/
def into (es : List Entry) (mode : Nat) : Nat := mode / 512 * 512 + bits es % 512

/-! ## The two agree -/

theorem ofBytes_toBytes : ∀ es : List Entry, ofBytes (toBytes es) = some es
  | [] => rfl
  | e :: es => by rw [toBytes, ofBytes, ofBytes_toBytes es]; rfl

theorem decode_encode (es : List Entry) : decode (encode es) = some es := ofBytes_toBytes es

theorem permOf_remask (mode : Nat) (tag : Byte) (es : List Entry) :
    permOf tag (remask mode es) =
      (es.find? fun e => decide (e.tag = tag)).map fun e =>
        (permUnder mode (groupClass es) e).val := by
  unfold permOf remask
  rw [List.find?_map, Option.map_map]
  rfl

theorem isSome_permOf_remask (mode : Nat) (tag : Byte) (es : List Entry) :
    (permOf tag (remask mode es)).isSome = (permOf tag es).isSome := by
  rw [permOf_remask]
  unfold permOf
  rw [Option.isSome_map, Option.isSome_map]

theorem groupClass_remask (mode : Nat) (es : List Entry) :
    groupClass (remask mode es) = groupClass es := by
  unfold groupClass
  rw [isSome_permOf_remask]

theorem Valid.remask {es : List Entry} (h : Valid es) (mode : Nat) : Valid (remask mode es) :=
  ⟨by rw [isSome_permOf_remask]; exact h.owner, by rw [isSome_permOf_remask]; exact h.group,
    by rw [isSome_permOf_remask]; exact h.other⟩

theorem extended_remask (mode : Nat) (es : List Entry) :
    extended (remask mode es) = extended es := by
  unfold extended remask
  rw [List.any_map]
  rfl

/-- The permissions of the first entry with a tag, under a new mode. -/
theorem permOf_remask_of_isSome {tag : Byte} {es : List Entry} (mode n : Nat)
    (h : (permOf tag es).isSome = true)
    (hperm : ∀ e : Entry, e.tag = tag → (permUnder mode (groupClass es) e).val = n) :
    permOf tag (remask mode es) = some n := by
  unfold permOf at h
  rw [Option.isSome_map] at h
  obtain ⟨e, he⟩ := Option.isSome_iff_exists.1 h
  rw [permOf_remask, he, Option.map_some, hperm e (by simpa using List.find?_some he)]

/-- **`chmod` keeps a list and its bits in step.** -/
theorem bits_remask {es : List Entry} (h : Valid es) (mode : Nat) :
    bits (remask mode es) = mode % 512 := by
  have hgroup : groupClass es ≠ userObj ∧ groupClass es ≠ Acl.other ∧
      (permOf (groupClass es) es).isSome = true := by
    unfold groupClass
    split
    · rename_i hmask
      exact ⟨by decide, by decide, hmask⟩
    · exact ⟨by decide, by decide, h.group⟩
  obtain ⟨huser, hother, hsome⟩ := hgroup
  have hval : ∀ n : Nat, (Fin.ofNat 256 (n % 8) : Byte).val = n % 8 := fun n => by
    show n % 8 % 256 = n % 8
    omega
  have h₁ := permOf_remask_of_isSome mode (mode / 64 % 8) h.owner fun e he => by
    unfold permUnder
    rw [if_pos he, hval]
  have h₂ := permOf_remask_of_isSome mode (mode / 8 % 8) hsome fun e he => by
    unfold permUnder
    rw [if_neg (by rw [he]; exact huser), if_pos he, hval]
  have h₃ := permOf_remask_of_isSome mode (mode % 8) h.other fun e he => by
    unfold permUnder
    rw [if_neg (by rw [he]; decide), if_neg (by rw [he]; exact hother.symm), if_pos he]
    exact hval mode
  unfold bits
  rw [groupClass_remask, h₁, h₂, h₃]
  simp only [Option.getD_some]
  omega

end Acl

end DedupCommando
