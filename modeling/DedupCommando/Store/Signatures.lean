import DedupCommando.Lib.Nesting
import DedupCommando.Store.DirTwins

/-!
# Signatures of directories

The two builders of `model/duplicate.rs`: one accumulates every file under each directory above it,
the other walks the files once and keeps a frame for each open directory.

* `RootSet`, `SignatureContext` — the selected roots, none inside another, and what the ledger says
  of a directory.
* `accountableAncestors` — the directories above a file that a build may account for.
* `byDir`, `keptDirs` — the whole-subtree builder up to the directories it keeps.
* `Frame`, `close`, `closeWhile`, `Walk.file`, `stream` — the streaming builder.
-/

set_option autoImplicit false

namespace DedupCommando

namespace Signatures

/-- A row of the manifest as a build reads it. -/
structure ManifestFile where
  path : Path
  size : UInt64
  hash : Option Bytes
  deriving DecidableEq

/-- Selected roots: none lies at or under another. -/
structure RootSet where
  roots : List PathKey
  apart : ∀ a ∈ roots, ∀ b ∈ roots, b.isAtOrUnder a = true → a = b

/-- `scope`: without roots nothing is bounded. -/
def scopeOf (bounds : Option RootSet) (path : Path) : DirScope :=
  match bounds with
  | none => .unbounded
  | some set =>
    match set.roots.find? fun root => CompletenessSnapshot.startsWithKey path root with
    | some root => .root root
    | none => .outside

/-- The directories above `path` that a build may account for, deepest first. -/
def accountableAncestors (path : Path) (scope : DirScope) : List Path :=
  match scope with
  | .outside => []
  | .unbounded => path.parents
  | .root root => path.parents.takeWhile fun dir => CompletenessSnapshot.startsWithKey dir root

/-- What a build needs to know about scope and completeness. What is suppressed suppresses every
directory above it, up to its root. -/
structure SignatureContext where
  bounds : Option RootSet
  disposition : Path → DirDisposition
  upward : ∀ dir, disposition dir = .suppressed →
    ∀ above ∈ accountableAncestors dir (scopeOf bounds dir), disposition above = .suppressed

def SignatureContext.scope (ctx : SignatureContext) (path : Path) : DirScope :=
  scopeOf ctx.bounds path

/-- The pre-ledger context: no bounding, nothing trusted. -/
def legacyContext : SignatureContext where
  bounds := none
  disposition _ := .untrusted
  upward _ h := by cases h

/-- The trust of a signature, where there is one. -/
def trustOf : DirDisposition → Option DirTrust
  | .suppressed => none
  | .trusted => some .trusted
  | .untrusted => some .untrusted

/-- The error for a file under no selected root. -/
def outsideEveryRoot (path : Path) : String :=
  s!"{terminal path.display} is not inside any selected scan root, so its directories cannot be " ++
    "attributed"

/-! ## The whole-subtree builder -/

structure DirAccum where
  entries : List (Bytes × Bytes)
  total : UInt64
  count : UInt32
  incomplete : Bool

def DirAccum.default : DirAccum := ⟨[], 0, 0, false⟩

/-- What one file adds to a directory above it. -/
def DirAccum.add (acc : DirAccum) (rel : Path) (file : ManifestFile) : DirAccum :=
  match file.hash with
  | some hash =>
    { acc with
      entries := acc.entries ++ [(lossyUtf8 rel.bytes, hash)]
      total := acc.total + file.size
      count := acc.count + 1 }
  | none => { acc with incomplete := true }

def accountDir (file : ManifestFile) (m : OrdMap Path DirAccum) (dir : Path) :
    OrdMap Path DirAccum :=
  match file.path.stripPrefix dir with
  | some rel => m.insert dir (((m.get? dir).getD DirAccum.default).add rel file)
  | none => m

/-- The first loop of `build_dir_groups_in_context`. -/
def byDir (ctx : SignatureContext) :
    OrdMap Path DirAccum → List ManifestFile → Except String (OrdMap Path DirAccum)
  | m, [] => .ok m
  | m, file :: files =>
    match ctx.scope file.path with
    | .outside => .error (outsideEveryRoot file.path)
    | scope => byDir ctx ((accountableAncestors file.path scope).foldl (accountDir file) m) files

/-- A directory the builder keeps, as it goes on to be grouped by its signature. -/
structure KeptDir where
  path : Path
  entries : List (Bytes × Bytes)
  total : UInt64
  count : UInt32
  trust : DirTrust

def keepDir (ctx : SignatureContext) (e : Path × DirAccum) : Option KeptDir :=
  if e.2.incomplete = true then none
  else (trustOf (ctx.disposition e.1)).map fun trust =>
    ⟨e.1, e.2.entries, e.2.total, e.2.count, trust⟩

/-- The directories that `build_dir_groups_in_context` keeps. -/
def keptDirs (ctx : SignatureContext) (files : List ManifestFile) : Except String (List KeptDir) :=
  match byDir ctx OrdMap.empty files with
  | .error e => .error e
  | .ok m => .ok (m.entries.filterMap (keepDir ctx))

/-! ## The streaming builder -/

structure Frame where
  path : Path
  entries : List (Bytes × Bytes)
  size : UInt64
  count : UInt32
  incomplete : Bool

def Frame.new (path : Path) : Frame := ⟨path, [], 0, 0, false⟩

structure DirSignature where
  path : Path
  signature : Bytes
  size : UInt64
  fileCount : UInt32
  trust : DirTrust

/-- The last component as text; a pathname that ends in `..` has none. -/
def baseName (path : Path) : Bytes := path.fileName.elim [] fun name => lossyUtf8 name.bytes

section Streaming

variable (ctx : SignatureContext) (signatureOf : List (Bytes × Bytes) → Bytes)

/-- What closing a frame emits. -/
def close (popped : Frame) : Option DirSignature :=
  match trustOf (ctx.disposition popped.path) with
  | none => none
  | some trust =>
    if popped.incomplete = true then none
    else some ⟨popped.path, signatureOf popped.entries, popped.size, popped.count, trust⟩

/-- What a closed frame leaves to its parent: one that is not emitted marks it incomplete. -/
def absorb (child : Option DirSignature) (parent : Frame) : Frame :=
  match child with
  | none => { parent with incomplete := true }
  | some s =>
    { parent with
      entries := parent.entries ++ [(baseName s.path, s.signature)]
      size := parent.size + s.size
      count := parent.count + s.fileCount }

/-- Closes frames from the top as long as `gone` holds of them. `child` is what the frame closed
last has left to the one now on top. -/
def closeWhile (gone : Path → Bool) :
    Option (Option DirSignature) → List Frame → List Frame × List DirSignature
  | _, [] => ([], [])
  | child, top :: rest =>
    let top := child.elim top fun child => absorb child top
    if gone top.path = true then
      let emitted := close ctx signatureOf top
      let r := closeWhile gone (some emitted) rest
      (r.1, emitted.toList ++ r.2)
    else (top :: rest, [])

/-- The state of the walk, with the frames it has ever opened. -/
structure Walk where
  stack : List Frame
  /-- The bound of the open frames, once it is set. -/
  bound : Option (Option PathKey)
  emitted : List DirSignature
  opened : List Path

def Walk.start : Walk := ⟨[], none, [], []⟩

def Walk.closeWhile (gone : Path → Bool) (w : Walk) : Walk :=
  let r := Signatures.closeWhile ctx signatureOf gone none w.stack
  { w with stack := r.1, emitted := w.emitted ++ r.2 }

/-- Opens the frames that are not open yet, root first. -/
def Walk.openFrames : List Path → Walk → Walk
  | [], w => w
  | dir :: dirs, w =>
    if w.stack.any (fun frame => decide (frame.path = dir)) = true then w.openFrames dirs
    else Walk.openFrames dirs { w with stack := Frame.new dir :: w.stack, opened := w.opened ++ [dir] }

/-- Enters a file in the frame on top. -/
def chargeTop (file : ManifestFile) : List Frame → List Frame
  | [] => []
  | top :: rest =>
    match file.hash with
    | some hash =>
      { top with
        entries := top.entries ++ [(baseName file.path, hash)]
        size := top.size + file.size
        count := top.count + 1 } :: rest
    | none => { top with incomplete := true } :: rest

def boundOf : DirScope → Option PathKey
  | .root root => some root
  | _ => none

/-- The body of the loop over the files. -/
def Walk.file (w : Walk) (file : ManifestFile) : Except String Walk :=
  match ctx.scope file.path with
  | .outside => .error (outsideEveryRoot file.path)
  | scope =>
    let bound := boundOf scope
    -- a root transition closes everything that is open
    let w := if w.bound.any (fun b => decide (b ≠ bound)) = true then
        w.closeWhile ctx signatureOf fun _ => true
      else w
    let w := { w with bound := some bound }
    let w := w.closeWhile ctx signatureOf fun dir => !file.path.startsWith dir
    let w := w.openFrames (accountableAncestors file.path scope).reverse
    .ok { w with stack := chargeTop file w.stack }

/-- `build_dir_signatures_streaming_in_context`, from a state of the walk on. -/
def stream : Walk → List ManifestFile → Except String Unit × Walk
  | w, [] => (.ok (), w.closeWhile ctx signatureOf fun _ => true)
  | w, file :: files =>
    match w.file ctx signatureOf file with
    | .error e => (.error e, w)
    | .ok w => stream w files

end Streaming

end Signatures

end DedupCommando
