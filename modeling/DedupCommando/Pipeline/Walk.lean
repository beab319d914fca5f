import DedupCommando.Pipeline.Roots
import DedupCommando.Store.OmissionLedger

/-!
# The walk of a scan

One pass over the selected roots: the files that make the manifest, and an account of everything
that was left out.  What the directory iterator hands out is an input, item by item.

* `WalkError`, `WalkEntry`, `WalkMeta` — an item of the iterator.
* `attributeChild`, `attributeErrorPath`, `errorPaths`, `errorCell` — where an omission is counted.
* `Collector`, `ObservedTally` — the account of a walk with root keys and without.
* `judgeFile`, `absorb` — what one item does.
* `walkItems`, `walkRoots`, `walkCollecting` — the walk.
-/

set_option autoImplicit false

namespace DedupCommando

/-! ## Items of the iterator -/

/-- `ignore::Error`. -/
inductive WalkError where
  | partialErrors (list : List WalkError)
  | withPath (path : Path) (err : WalkError)
  | withDepth (depth : Nat) (err : WalkError)
  | withLineNumber (line : Nat) (err : WalkError)
  | loop (ancestor child : Path)
  | io (cause : String)
  | glob (glob : Option String) (err : String)
  | unrecognizedFileType (text : String)
  | invalidDefinition

inductive EntryType where
  | file
  | dir
  | other
  deriving DecidableEq

structure WalkMeta where
  size : Nat
  mtime : Int
  mtimeNsec : Int
  ctimeSec : Int
  ctimeNsec : Int
  device : Nat
  inode : Nat
  nlink : Nat

/-- `ignore::DirEntry`: its metadata is asked for once. -/
structure WalkEntry where
  path : Path
  fileName : Bytes
  fileType : Option EntryType
  metadata : Except WalkError WalkMeta

abbrev WalkItem := Except WalkError WalkEntry

/-- A file discovered during the walk. -/
structure WalkedFile where
  path : Path
  size : Nat
  mtime : Int
  mtimeNsec : Int
  ctimeSec : Int
  ctimeNsec : Int
  device : Nat
  inode : Nat
  nlink : Nat

/-- What the walk reads of `ScanConfig`; extensions are ASCII lower case, no leading dot. -/
structure WalkConfig where
  roots : List Path
  excludeGlobs : List String
  minSize : Nat
  maxSize : Option Nat
  includeExtensions : List Bytes

/-- The directory iterator: its exclusions, built once, and the items of a builder over these
roots. -/
structure Walker where
  overrides : List String → Except String Unit
  items : List Path → List WalkItem

/-! ## Where an omission is counted -/

/-- The key of the first of these places that has one inside the root. -/
def keyInside (root : PathKey) : List Path → Option PathKey
  | [] => none
  | candidate :: above =>
    match PathKey.new candidate with
    | some key => if key.isAtOrUnder root then some key else keyInside root above
    | none => keyInside root above

/-- `attribute_child`: the parent of a known entry, or the nearest place above it with a key in
the root. -/
def attributeChild (path : Path) (root : PathKey) : PathKey :=
  (keyInside root path.parents).getD root

/-- `attribute_error_path`: starts at the path itself. -/
def attributeErrorPath (path : Path) (root : PathKey) : Option PathKey :=
  keyInside root (path :: path.parents)

mutual

/-- `error_paths`: every pathname that an error carries. -/
def errorPaths : WalkError → List Path
  | .partialErrors list => errorPathsAll list
  | .withPath path err => path :: errorPaths err
  | .withDepth _ err => errorPaths err
  | .withLineNumber _ err => errorPaths err
  | .loop ancestor child => [ancestor, child]
  | .io _ => []
  | .glob _ _ => []
  | .unrecognizedFileType _ => []
  | .invalidDefinition => []

def errorPathsAll : List WalkError → List Path
  | [] => []
  | inner :: rest => errorPaths inner ++ errorPathsAll rest

end

/-- The distinct locations of these paths, in the order met. -/
def locationsOf (root : PathKey) : List Path → List PathKey → List PathKey
  | [], locations => locations
  | path :: rest, locations =>
    match attributeErrorPath path root with
    | some key =>
      locationsOf root rest (if locations.contains key then locations else locations ++ [key])
    | none => locationsOf root rest locations

/-- `error_cell`: the single cell of one error, the location below every other one. -/
def errorCell (err : WalkError) (root : PathKey) : PathKey :=
  match locationsOf root (errorPaths err) [] with
  | [] => root
  | [only] => only
  | locations =>
    (locations.find? fun candidate => locations.all fun other => candidate.isAtOrUnder other).getD
      root

/-- `is_failure_of`: the directory's own failure, its listing refused. -/
def isFailureOf (err : WalkError) (dir : Path) : Bool :=
  match err with
  | .withPath path _ => decide (path = dir)
  | _ => false

/-! ## The account -/

/-- Why a walk produced no publishable omission snapshot. -/
inductive SnapshotUnavailable where
  | roots (why : AuthorityUnavailable) (observed : OmissionSummary)
  | countOverflow (root directory : PathKey) (reason : OmissionReason)
  | countNotStorable (root directory : PathKey) (reason : OmissionReason)
  | unregisteredRoot (root directory : PathKey) (reason : OmissionReason)
  | observedOverflow (reason : OmissionReason)

inductive OmissionSnapshot where
  | publishable (perRoot : OrdMap PathKey OmissionCounts)
  | unavailable (why : SnapshotUnavailable)

/-- The tally of a walk whose roots carry no authority. -/
structure ObservedTally where
  summary : OmissionSummary
  failure : Option OmissionReason

namespace ObservedTally

def default : ObservedTally := ⟨.default, none⟩

def record (tally : ObservedTally) (reason : OmissionReason) : ObservedTally :=
  if tally.failure.isSome then tally
  else
    match tally.summary.add reason .one with
    | .ok summary => { tally with summary := summary }
    | .error _ => { tally with failure := some reason }

def finish (tally : ObservedTally) (why : AuthorityUnavailable) : OmissionSnapshot :=
  match tally.failure with
  | some reason => .unavailable (.observedOverflow reason)
  | none => .unavailable (.roots why tally.summary)

end ObservedTally

/-- One walk's omissions, one entry for each selected root, and the first failure to count. -/
structure Collector where
  perRoot : OrdMap PathKey OmissionCounts
  failure : Option SnapshotUnavailable

namespace Collector

def new (roots : List PathKey) : Collector :=
  ⟨roots.foldl (fun perRoot root => perRoot.insert root .new) .empty, none⟩

/-- Records one event. -/
def record (c : Collector) (root directory : PathKey) (reason : OmissionReason) : Collector :=
  if c.failure.isSome then c
  else
    match c.perRoot.get? root with
    | none => { c with failure := some (.unregisteredRoot root directory reason) }
    | some counts =>
      match counts.bump directory reason with
      | .ok counts => { c with perRoot := c.perRoot.insert root counts }
      | .error _ => { c with failure := some (.countOverflow root directory reason) }

/-- The first cell that the checkpoint's column cannot store. -/
def notStorable (c : Collector) : Option SnapshotUnavailable :=
  c.perRoot.entries.findSome? fun e => e.2.iter.findSome? fun cell =>
    match cell.2.2.toI64 with
    | .ok _ => none
    | .error _ => some (.countNotStorable e.1 cell.1 cell.2.1)

def finish (c : Collector) : OmissionSnapshot :=
  match c.failure with
  | some why => .unavailable why
  | none =>
    match c.notStorable with
    | some why => .unavailable why
    | none => .publishable c.perRoot

end Collector

/-- Where one walk's omission events are counted. -/
inductive Account where
  | ledger (root : PathKey) (collector : Collector)
  | observed (tally : ObservedTally)

/-- A directory whose identity could not be read, and why. -/
structure Unverified where
  dir : Path
  cause : WalkError

/-- Where one iteration's results go. -/
structure Sink where
  files : List WalkedFile
  dirs : DirAliasGuard
  account : Account
  /-- A directory without its identity, until the next item shows whether the walk went in. -/
  unverified : Option Unverified

namespace Sink

/-- An omission whose entry is known. -/
def recordChild (sink : Sink) (path : Path) (reason : OmissionReason) : Sink :=
  match sink.account with
  | .ledger root collector =>
    { sink with account := .ledger root (collector.record root (attributeChild path root) reason) }
  | .observed tally => { sink with account := .observed (tally.record reason) }

/-- An iterator error: exactly one event, at one cell. -/
def recordError (sink : Sink) (err : WalkError) : Sink :=
  match sink.account with
  | .ledger root collector =>
    { sink with account := .ledger root (collector.record root (errorCell err root) .walkError) }
  | .observed tally => { sink with account := .observed (tally.record .walkError) }

/-- A directory still waiting when its walk ends was not gone into. -/
def settleUnverified (sink : Sink) : Sink :=
  match sink.unverified with
  | some unverified => { sink.recordError unverified.cause with unverified := none }
  | none => sink

end Sink

/-! ## One item -/

/-- Why a walk stops without a result. -/
inductive WalkRefusal where
  | noRoots
  | exclusions (text : String)
  | unverifiableDirectory (dir : Path) (cause : WalkError)
  | sameDirectory (twice : DirAlias)

/-- The text of a refusal; `shown` is how the iterator's library words an error. -/
def WalkRefusal.message (shown : WalkError → String) : WalkRefusal → String
  | noRoots => "no scan root specified"
  | exclusions text => text
  | unverifiableDirectory dir cause =>
    "scan aborted: cannot read the physical identity of directory " ++ showPath dir ++ " (" ++
      terminal (shown cause) ++ ") — without its device and inode the same-directory guard cannot " ++
      "tell whether this tree has already been walked under another pathname, and one tree counted " ++
      "twice is not a result worth publishing. Rescan; if the scan stops here again, fix access to " ++
      "the directory."
  | sameDirectory a => a.message

def lowerByte (b : Byte) : Byte := if 65 ≤ b ∧ b ≤ 90 then b + 32 else b

/-- `has_extension`: something stands before the dot, and the letters' case is set aside. -/
def hasExtension (name : Bytes) (extensions : List Bytes) : Bool :=
  extensions.any fun ext =>
    decide (ext.length + 1 < name.length) &&
      decide (name[name.length - ext.length - 1]? = some 46) &&
      decide ((name.drop (name.length - ext.length)).map lowerByte = ext.map lowerByte)

/-- `path.to_str()` succeeds. -/
def isUtf8Path (path : Path) : Bool := isUtf8 path.bytes

/-- What becomes of an entry that is a regular file. -/
inductive FileVerdict where
  | manifest (file : WalkedFile)
  | ownDatabase
  | omitted (reason : OmissionReason)

/-- The filters of `absorb` on a regular file, in their order. -/
def judgeFile (config : WalkConfig) (ownDatabase : List (Nat × Nat)) (entry : WalkEntry) :
    FileVerdict :=
  match entry.metadata with
  | .error _ => .omitted .metadataError
  | .ok found =>
    -- The three files of the open database are left out without an omission.
    if ownDatabase.contains (found.device, found.inode) then .ownDatabase
    else if found.size < config.minSize then .omitted .minSize
    else if config.maxSize.any fun most => decide (most < found.size) then .omitted .maxSize
    else if config.includeExtensions ≠ [] ∧
        hasExtension entry.fileName config.includeExtensions = false then
      .omitted .extensionFiltered
    else if isUtf8Path entry.path = false then .omitted .nonUtf8
    else .manifest ⟨entry.path, found.size, found.mtime, found.mtimeNsec, found.ctimeSec,
      found.ctimeNsec, found.device, found.inode, found.nlink⟩

/-- The first part of `absorb`: a directory that waits is settled by what comes next. -/
def settleByNext (result : WalkItem) (sink : Sink) : Except WalkRefusal Sink :=
  match sink.unverified with
  | none => .ok sink
  | some unverified =>
    match result with
    | .ok entry =>
      -- The walk goes into it, where the guard is blind.
      if entry.path.startsWith unverified.dir then
        .error (.unverifiableDirectory unverified.dir unverified.cause)
      else .ok { sink.recordError unverified.cause with unverified := none }
    | .error err =>
      -- Its own listing failed: that error is its one event. Any other keeps it waiting.
      if isFailureOf err unverified.dir then .ok { sink with unverified := none }
      else .ok sink

/-- `absorb`: handles one item from a walk iterator. -/
def absorb (config : WalkConfig) (ownDatabase : List (Nat × Nat)) (result : WalkItem)
    (sink : Sink) : Except WalkRefusal Sink :=
  match settleByNext result sink with
  | .error e => .error e
  | .ok sink =>
    match result with
    | .error err => .ok (sink.recordError err)
    | .ok entry =>
      match entry.fileType with
      | some .file =>
        match judgeFile config ownDatabase entry with
        | .manifest file => .ok { sink with files := sink.files ++ [file] }
        | .ownDatabase => .ok sink
        | .omitted reason => .ok (sink.recordChild entry.path reason)
      | some .dir =>
        match entry.metadata with
        | .ok found =>
          match sink.dirs.note entry.path found.device found.inode with
          | .ok dirs => .ok { sink with dirs := dirs }
          | .error twice => .error (.sameDirectory twice)
        | .error cause => .ok { sink with unverified := some ⟨entry.path, cause⟩ }
      | _ => .ok (sink.recordChild entry.path .unsupportedEntry)

/-! ## The walk -/

/-- The items of one builder; `true` when the walk was cancelled before one of them. -/
def walkItems (config : WalkConfig) (ownDatabase : List (Nat × Nat)) (cancel : Nat → Bool) :
    List WalkItem → Nat → Sink → Except WalkRefusal (Bool × Nat × Sink)
  | [], entries, sink => .ok (false, entries, sink)
  | result :: rest, entries, sink =>
    if entries % 1024 = 0 ∧ cancel entries then .ok (true, entries, sink)
    else
      match absorb config ownDatabase result sink with
      | .error e => .error e
      | .ok sink => walkItems config ownDatabase cancel rest (entries + 1) sink

/-- What the walks of all roots share. -/
structure WalkState where
  entries : Nat
  files : List WalkedFile
  dirs : DirAliasGuard
  collector : Collector

/-- The collector back from a sink that counts into a ledger. -/
def Account.collector (fallback : Collector) : Account → Collector
  | .ledger _ collector => collector
  | .observed _ => fallback

/-- Each root by its own builder, in configured order. -/
def walkRoots (walker : Walker) (config : WalkConfig) (ownDatabase : List (Nat × Nat))
    (cancel : Nat → Bool) :
    List (Path × PathKey) → WalkState → Except WalkRefusal (Bool × WalkState)
  | [], state => .ok (false, state)
  | (path, key) :: rest, state =>
    match walkItems config ownDatabase cancel (walker.items [path]) state.entries
        ⟨state.files, state.dirs, .ledger key state.collector, none⟩ with
    | .error e => .error e
    | .ok (true, entries, sink) =>
      .ok (true, ⟨entries, sink.files, sink.dirs, sink.account.collector state.collector⟩)
    | .ok (false, entries, sink) =>
      -- Settled in its own root: the next root's walk would put it in that ledger.
      let sink := sink.settleUnverified
      walkRoots walker config ownDatabase cancel rest
        ⟨entries, sink.files, sink.dirs, sink.account.collector state.collector⟩

/-- Everything one walk produced; a cancelled one has no account. -/
inductive WalkOutcome where
  | finished (files : List WalkedFile) (omissions : OmissionSnapshot)
  | cancelled (files : List WalkedFile)

/-- `walk_collecting` -/
def walkCollecting (walker : Walker) (config : WalkConfig) (ownDatabase : List (Nat × Nat))
    (cancel : Nat → Bool) : Except WalkRefusal WalkOutcome :=
  if config.roots = [] then .error .noRoots
  else
    match walker.overrides config.excludeGlobs with
    | .error text => .error (.exclusions text)
    | .ok () =>
      match rootKeys config.roots with
      | .error why =>
        -- No authority to be had: one builder over all roots, every event still counted.
        match walkItems config ownDatabase cancel (walker.items config.roots) 0
            ⟨[], .default, .observed .default, none⟩ with
        | .error e => .error e
        | .ok (cancelled, _, sink) =>
          let sink := sink.settleUnverified
          if cancelled then .ok (.cancelled sink.files)
          else
            match sink.account with
            | .observed tally => .ok (.finished sink.files (tally.finish why))
            | .ledger _ collector => .ok (.finished sink.files collector.finish)
      | .ok keys =>
        match walkRoots walker config ownDatabase cancel (config.roots.zip keys)
            ⟨0, [], .default, .new keys⟩ with
        | .error e => .error e
        | .ok (true, state) => .ok (.cancelled state.files)
        | .ok (false, state) => .ok (.finished state.files state.collector.finish)

end DedupCommando
