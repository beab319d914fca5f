import DedupCommando.Actions.Batch
import DedupCommando.Lib.Stamps
import DedupCommando.Store.Candidates

/-!
# Reading a candidate

`hash_file_verified` of `pipeline/hash.rs` while other processes write, truncate, rename, link and
unlink: a file is opened once and read chunk by chunk, and each call of the kernel has a moment of
its own in the history of the file system.

* `Moment`, `History` — what pathnames lead to and what objects hold, from moment to moment.
* `Turn`, `Schedule` — when each call is made, and how it turns out.
* `openRegularNofollow`, `readChunks`, `hashFileVerified` — the reader.
* `readChunks_whole` — over one content the chunks come to all of it.
* `hashFileVerified_whole` — **a digest is of the complete content that the opened object had from
  the look before the read to the look behind it**.
* `hashFileVerified_undisturbed` — an object nobody touches gives its digest.
-/

set_option autoImplicit false

namespace DedupCommando

namespace HashFile

/-! ## The history -/

/-- What readers meet at one moment.  An object is one life of an inode: a number that is given out
    again is another object. -/
structure Moment where
  /-- The object that a pathname leads to, a link at its end not followed. -/
  names : Bytes → Option Nat
  objects : Nat → InodeId × Node
  /-- `is_open_database_file` -/
  ownDatabase : InodeId → Bool

abbrev History := Nat → Moment

namespace History

def node (h : History) (object moment : Nat) : Node := ((h moment).objects object).2

def content (h : History) (object moment : Nat) : Bytes := (h.node object moment).content

/-- `FileIdentity::from_metadata` of what is there at a moment. -/
def identity (h : History) (object moment : Nat) : FileIdentity :=
  (h.node object moment).fileIdentity ((h moment).objects object).1

/-- Whatever changes an object's content gives it a `ctime` it never had before. -/
def Stamped (h : History) : Prop :=
  ∀ object, DedupCommando.Stamped (h.content object) fun moment => (h.node object moment).ctime

end History

/-- One turn of the reader: what it sees of the stop flag, when its call is made, the error the
    kernel answers with, and how much a read gives at most. -/
structure Turn where
  stop : Bool
  moment : Nat
  fault : Option IoError
  count : Nat

/-- The turns of one reader, which come one after the other. -/
structure Schedule where
  turns : List Turn
  inOrder : turns.Pairwise fun a b => a.moment ≤ b.moment

/-! ## The calls -/

/-- `lstat` -/
def lstat (h : History) (path : Bytes) (turn : Turn) : Except IoError (InodeId × Node) :=
  match turn.fault with
  | some e => .error e
  | none =>
    match (h turn.moment).names path with
    | none => .error .notFound
    | some object => .ok ((h turn.moment).objects object)

/-- `open` with `O_NOFOLLOW` -/
def openNofollow (h : History) (path : Bytes) (turn : Turn) : Except IoError Nat :=
  match turn.fault with
  | some e => .error e
  | none =>
    match (h turn.moment).names path with
    | none => .error .notFound
    | some object =>
      if (h.node object turn.moment).kind = .symlink then .error .loop else .ok object

/-- `fstat` -/
def fstat (h : History) (object : Nat) (turn : Turn) : Except IoError FileIdentity :=
  match turn.fault with
  | some e => .error e
  | none => .ok (h.identity object turn.moment)

/-- `OPEN_DATABASE_REFUSAL` -/
def openDatabaseRefusal : IoError :=
  ⟨none, "a file of dedcom's open database, or a hard link to one — it is not read as a file"⟩

/-- `refuse_if_open_database` -/
def refuseIfOpenDatabase (h : History) (turn : Turn) (file : InodeId) : Except IoError Unit :=
  if (h turn.moment).ownDatabase file then .error openDatabaseRefusal else .ok ()

/-- The look before the open; a name that cannot be looked at is left to the open. -/
def lookFirst (h : History) (path : Bytes) (turn : Turn) : Except IoError Unit :=
  match lstat h path turn with
  | .error _ => .ok ()
  | .ok looked => refuseIfOpenDatabase h turn looked.1

/-- `open_regular_nofollow` -/
def openRegularNofollow (h : History) (path : Bytes) (look opening stat : Turn) :
    Except IoError Nat :=
  match lookFirst h path look with
  | .error e => .error e
  | .ok () =>
    match openNofollow h path opening with
    | .error e => .error e
    | .ok object =>
      match fstat h object stat with
      | .error e => .error e
      | .ok opened =>
        match refuseIfOpenDatabase h stat ⟨opened.dev, opened.ino⟩ with
        | .error e => .error e
        | .ok () =>
          if opened.kind ≠ .regular then
            .error ⟨none, "not a regular file (FIFO/device/socket) — skipping"⟩
          else .ok object

/-! ## The reader -/

/-- `BUFFER_SIZE` -/
def bufferSize : Nat := 256 * 1024

/-- What the loop over the chunks came to. -/
inductive Chunks where
  | whole (content : Bytes) (turns : List Turn)
  | stopped (read : Nat)
  | failed (e : IoError) (read : Nat)

/-- The loop over the chunks, with what has been read; `none` as long as it is not over. -/
def readChunks (h : History) (object : Nat) : Bytes → List Turn → Option Chunks
  | _, [] => none
  | got, turn :: turns =>
    if turn.stop then some (.stopped got.length)
    else
      match turn.fault with
      | some e => some (.failed e got.length)
      | none =>
        -- a read that is not at the end gives one byte at least
        match ((h.content object turn.moment).drop got.length).take
            (min (max turn.count 1) bufferSize) with
        | [] => some (.whole got turns)
        | b :: chunk => readChunks h object (got ++ b :: chunk) turns

/-- What reading one file came to. -/
inductive Hashed where
  | whole (digest : Bytes) (identity : FileIdentity)
  | stopped

/-- `identity_stable` -/
def identityStable (before after : FileIdentity) : Except IoError Unit :=
  if before = after then .ok () else .error ⟨none, "file changed during hashing"⟩

/-- `path_object_matches` -/
def pathObjectMatches (h : History) (path : Bytes) (dev ino : Nat) (turn : Turn) :
    Except IoError Unit :=
  match lstat h path turn with
  | .error e => .error e
  | .ok (i, _) =>
    if i.device = dev ∧ i.inode = ino then .ok () else .error ⟨none, "path swapped during hashing"⟩

/-- The looks behind the chunks. -/
def settle (hash : Bytes → Bytes) (h : History) (path : Bytes) (object : Nat)
    (before : FileIdentity) (content : Bytes) (last check : Turn) : Except IoError Hashed :=
  match fstat h object last with
  | .error e => .error e
  | .ok after =>
    match identityStable before after with
    | .error e => .error e
    | .ok () =>
      match pathObjectMatches h path before.dev before.ino check with
      | .error e => .error e
      | .ok () => .ok (.whole (hash content) after)

/-- The chunks of an opened file and the looks around them, with the bytes that were counted. -/
def hashOpened (hash : Bytes → Bytes) (h : History) (path : Bytes) (object : Nat) :
    List Turn → Option (Except IoError Hashed × Nat)
  | [] => none
  | first :: turns =>
    match fstat h object first with
    | .error e => some (.error e, 0)
    | .ok before =>
      match readChunks h object [] turns with
      | none => none
      | some (.stopped read) => some (.ok .stopped, read)
      | some (.failed e read) => some (.error e, read)
      | some (.whole content (last :: check :: _)) =>
        some (settle hash h path object before content last check, content.length)
      | some (.whole _ _) => none

/-- `hash_file_verified`; `none` as long as the reader has turns to come. -/
def hashFileVerified (hash : Bytes → Bytes) (h : History) (path : Bytes) :
    List Turn → Option (Except IoError Hashed × Nat)
  | start :: look :: opening :: stat :: turns =>
    if start.stop then some (.ok .stopped, 0)
    else
      match openRegularNofollow h path look opening stat with
      | .error e => some (.error e, 0)
      | .ok object => hashOpened hash h path object turns
  | start :: _ => if start.stop then some (.ok .stopped, 0) else none
  | [] => none

/-! ## The chunks -/

section Chunks

variable {h : History} {object : Nat}

theorem pieceSize_pos (count : Nat) : 1 ≤ min (max count 1) bufferSize := by
  unfold bufferSize
  omega

theorem drop_of_take_eq_nil {rest : Bytes} {count : Nat}
    (hnil : rest.take (min (max count 1) bufferSize) = []) : rest = [] := by
  have hpos := pieceSize_pos count
  rcases List.take_eq_nil_iff.1 hnil with hzero | hrest
  · omega
  · exact hrest

/-- A chunk behind what has been read goes on with the content. -/
theorem append_chunk_prefix {got chunk c : Bytes} {count : Nat} (hgot : got <+: c)
    (hchunk : (c.drop got.length).take count = chunk) : got ++ chunk <+: c := by
  obtain ⟨rest, rfl⟩ := hgot
  rw [List.drop_left] at hchunk
  rw [← hchunk]
  exact (List.prefix_append_right_inj got).2 (List.take_prefix count rest)

theorem eq_of_prefix_of_drop {got c : Bytes} (hgot : got <+: c) (hdrop : c.drop got.length = []) :
    got = c := by
  have hle : c.length ≤ got.length := List.drop_eq_nil_iff.1 hdrop
  exact hgot.eq_of_length (Nat.le_antisymm hgot.length_le hle)

/-- **The chunks that are read to the end**: where the object had one content at all of their
moments, they come to all of it. -/
theorem readChunks_whole :
    ∀ {turns rest : List Turn} {got out : Bytes},
      readChunks h object got turns = some (.whole out rest) →
      ∃ used, turns = used ++ rest ∧
        ∀ c, (∀ turn ∈ used, h.content object turn.moment = c) → got <+: c → out = c
  | [], _, _, _, hrun => by
    unfold readChunks at hrun
    cases hrun
  | turn :: turns, rest, got, out, hrun => by
    unfold readChunks at hrun
    by_cases hstop : turn.stop = true
    · rw [if_pos hstop] at hrun
      cases hrun
    · rw [if_neg hstop] at hrun
      cases hfault : turn.fault with
      | some e =>
        rw [hfault] at hrun
        cases hrun
      | none =>
        rw [hfault] at hrun
        dsimp only at hrun
        split at hrun
        · rename_i hend
          cases hrun
          refine ⟨[turn], rfl, ?_⟩
          intro c hc hgot
          have hcontent := hc turn List.mem_cons_self
          rw [hcontent] at hend
          exact eq_of_prefix_of_drop hgot (drop_of_take_eq_nil hend)
        · rename_i b chunk hchunk
          obtain ⟨used, hused, hall⟩ := readChunks_whole hrun
          refine ⟨turn :: used, by rw [hused, List.cons_append], ?_⟩
          intro c hc hgot
          have hcontent := hc turn List.mem_cons_self
          rw [hcontent] at hchunk
          apply hall c
          · intro t ht
            exact hc t (List.mem_cons_of_mem turn ht)
          · exact append_chunk_prefix hgot hchunk

/-- Reads that nobody stops or fails come to an end: each one gives a byte at least. -/
theorem readChunks_undisturbed {c : Bytes} :
    ∀ {turns : List Turn} {got : Bytes} {more : Nat},
      (∀ turn ∈ turns, turn.stop = false ∧ turn.fault = none ∧
        h.content object turn.moment = c) →
      got <+: c → c.length + 1 + more ≤ got.length + turns.length →
      ∃ used rest, readChunks h object got turns = some (.whole c rest) ∧ turns = used ++ rest ∧
        more ≤ rest.length
  | [], got, more, _, hgot, hlen => by
    have hle := hgot.length_le
    rw [List.length_nil] at hlen
    omega
  | turn :: turns, got, more, hturns, hgot, hlen => by
    obtain ⟨hstop, hfault, hcontent⟩ := hturns turn List.mem_cons_self
    have hrest := fun t ht => hturns t (List.mem_cons_of_mem turn ht)
    rw [List.length_cons] at hlen
    unfold readChunks
    rw [if_neg (by simp [hstop]), hfault, hcontent]
    dsimp only
    cases hchunk : (c.drop got.length).take (min (max turn.count 1) bufferSize) with
    | nil =>
      have hdone := eq_of_prefix_of_drop hgot (drop_of_take_eq_nil hchunk)
      subst hdone
      refine ⟨[turn], turns, rfl, rfl, ?_⟩
      omega
    | cons b chunk =>
      have hnext := append_chunk_prefix hgot hchunk
      have hlong : c.length + 1 + more ≤ (got ++ b :: chunk).length + turns.length := by
        rw [List.length_append, List.length_cons]
        omega
      obtain ⟨used, rest, hrun, hused, hmore⟩ := readChunks_undisturbed hrest hnext hlong
      exact ⟨turn :: used, rest, hrun, by rw [hused, List.cons_append], hmore⟩

end Chunks

/-! ## The calls, inverted -/

section Calls

variable {h : History} {path : Bytes} {turn : Turn}

theorem fstat_ok {object : Nat} {id : FileIdentity} (hrun : fstat h object turn = .ok id) :
    h.identity object turn.moment = id := by
  unfold fstat at hrun
  split at hrun
  · cases hrun
  · cases hrun
    rfl

theorem openNofollow_ok {object : Nat} (hrun : openNofollow h path turn = .ok object) :
    (h turn.moment).names path = some object := by
  unfold openNofollow at hrun
  split at hrun
  · cases hrun
  · split at hrun
    · cases hrun
    · rename_i found hfound
      split at hrun
      · cases hrun
      · cases hrun
        exact hfound

theorem pathObjectMatches_ok {dev ino : Nat} (hrun : pathObjectMatches h path dev ino turn = .ok ()) :
    ∃ other, (h turn.moment).names path = some other ∧
      ((h turn.moment).objects other).1 = ⟨dev, ino⟩ := by
  unfold pathObjectMatches lstat at hrun
  split at hrun
  · cases hrun
  · rename_i i n hlook
    split at hlook
    · cases hlook
    · split at hlook
      · cases hlook
      · rename_i other hother
        have hfound : (h turn.moment).objects other = (i, n) := Except.ok.inj hlook
        split at hrun
        · rename_i hsame
          exact ⟨other, hother, by rw [hfound, ← hsame.1, ← hsame.2]⟩
        · cases hrun

theorem openRegularNofollow_ok {look opening stat : Turn} {object : Nat}
    (hrun : openRegularNofollow h path look opening stat = .ok object) :
    (h opening.moment).names path = some object ∧
      (h.node object stat.moment).kind = .regular ∧
      (h stat.moment).ownDatabase ((h stat.moment).objects object).1 = false := by
  unfold openRegularNofollow at hrun
  split at hrun
  · cases hrun
  · split at hrun
    · cases hrun
    · rename_i found hopened
      split at hrun
      · cases hrun
      · rename_i opened hstat
        have hid := fstat_ok hstat
        subst hid
        unfold refuseIfOpenDatabase at hrun
        split at hrun
        · cases hrun
        · rename_i hrefused
          split at hrun
          · cases hrun
          · rename_i hkind
            cases hrun
            refine ⟨openNofollow_ok hopened, ?_, ?_⟩
            · exact not_not.1 hkind
            · split at hrefused
              · cases hrefused
              · rename_i hown
                exact Bool.eq_false_iff.2 hown

end Calls

/-! ## The reader -/

section Reader

variable {hash : Bytes → Bytes} {h : History} {path : Bytes}

/-- What stands behind a digest: the object that the pathname led to at the open, the looks before
and behind the chunks, and the one content it had in between. -/
structure ReadWhole (hash : Bytes → Bytes) (h : History) (path digest : Bytes) (id : FileIdentity)
    (object opening first last check : Nat) : Prop where
  inOrder : opening ≤ first ∧ first ≤ last ∧ last ≤ check
  opened : (h opening).names path = some object
  before : h.identity object first = id
  after : h.identity object last = id
  throughout : ∀ moment, first ≤ moment → moment ≤ last → digest = hash (h.content object moment)
  there : ∃ other, (h check).names path = some other ∧ ((h check).objects other).1 = ⟨id.dev, id.ino⟩

theorem settle_whole {object : Nat} {before : FileIdentity} {content digest : Bytes}
    {id : FileIdentity} {last check : Turn}
    (hrun : settle hash h path object before content last check = .ok (.whole digest id)) :
    before = id ∧ h.identity object last.moment = id ∧ digest = hash content ∧
      pathObjectMatches h path before.dev before.ino check = .ok () := by
  unfold settle at hrun
  split at hrun
  · cases hrun
  · rename_i after hafter
    split at hrun
    · cases hrun
    · rename_i hstable
      split at hrun
      · cases hrun
      · rename_i hmatches
        cases hrun
        unfold identityStable at hstable
        split at hstable
        · rename_i hsame
          exact ⟨hsame, fstat_ok hafter, rfl, hmatches⟩
        · cases hstable

theorem identity_ctime {object m : Nat} {id : FileIdentity} (hid : h.identity object m = id) :
    (h.node object m).ctime = id.ctime := by
  rw [← hid]
  rfl

theorem hashOpened_whole (hstamped : h.Stamped) {object : Nat} {turns : List Turn}
    {digest : Bytes} {id : FileIdentity} {read : Nat}
    (horder : turns.Pairwise fun a b => a.moment ≤ b.moment)
    (hrun : hashOpened hash h path object turns = some (.ok (.whole digest id), read)) :
    ∃ first ∈ turns, ∃ last ∈ turns, ∃ check ∈ turns,
      first.moment ≤ last.moment ∧ last.moment ≤ check.moment ∧
      h.identity object first.moment = id ∧ h.identity object last.moment = id ∧
      read = id.size ∧
      (∀ moment, first.moment ≤ moment → moment ≤ last.moment →
        digest = hash (h.content object moment)) ∧
      pathObjectMatches h path id.dev id.ino check = .ok () := by
  cases turns with
  | nil =>
    unfold hashOpened at hrun
    cases hrun
  | cons first turns =>
    rw [hashOpened] at hrun
    split at hrun
    · cases hrun
    · rename_i before hbefore
      have hfirst := fstat_ok hbefore
      split at hrun
      · cases hrun
      · cases hrun
      · cases hrun
      · rename_i content last check rest hread
        rw [Option.some.injEq, Prod.mk.injEq] at hrun
        obtain ⟨hsettle, rfl⟩ := hrun
        obtain ⟨rfl, hlast, hdigest, hmatches⟩ := settle_whole hsettle
        obtain ⟨used, hused, hwhole⟩ := readChunks_whole hread
        obtain ⟨hbehind, hrest⟩ := List.pairwise_cons.1 horder
        have hmem : last ∈ turns := by
          rw [hused]
          simp
        have hcheck : check ∈ turns := by
          rw [hused]
          simp
        rw [hused, List.pairwise_append] at hrest
        obtain ⟨-, htail, hbetween⟩ := hrest
        have hfl := hbehind last hmem
        have hctime : (h.node object last.moment).ctime = (h.node object first.moment).ctime := by
          rw [identity_ctime hlast, identity_ctime hfirst]
        -- one `ctime` at both looks: one content in between
        have hstays := fun m h₁ h₂ => (@Stamped.stays _ _ _ _ (hstamped object) _ _ hfl hctime m h₁ h₂).1
        have hcontent : content = h.content object first.moment := by
          apply hwhole
          · intro turn hturn
            apply hstays
            · apply hbehind
              rw [hused]
              exact List.mem_append_left _ hturn
            · exact hbetween turn hturn last List.mem_cons_self
          · exact List.nil_prefix
        refine ⟨first, List.mem_cons_self, last, List.mem_cons_of_mem first hmem, check,
          List.mem_cons_of_mem first hcheck, hfl, ?_, hfirst, hlast, ?_, ?_, hmatches⟩
        · exact (List.pairwise_cons.1 htail).1 check List.mem_cons_self
        · rw [hcontent, ← hfirst]
          rfl
        · intro m h₁ h₂
          rw [hdigest, hcontent, hstays m h₁ h₂]
      · cases hrun

/-- **What a digest is of**: the complete content that the object opened under the pathname had at
every moment from the look before the chunks to the look behind them, with the identity that both
looks found. -/
theorem hashFileVerified_whole (hstamped : h.Stamped) (s : Schedule) {digest : Bytes}
    {id : FileIdentity} {read : Nat}
    (hrun : hashFileVerified hash h path s.turns = some (.ok (.whole digest id), read)) :
    read = id.size ∧ ∃ object, ∃ opening ∈ s.turns, ∃ first ∈ s.turns, ∃ last ∈ s.turns,
      ∃ check ∈ s.turns, ReadWhole hash h path digest id object opening.moment first.moment
        last.moment check.moment := by
  obtain ⟨turns, horder⟩ := s
  dsimp only at hrun ⊢
  unfold hashFileVerified at hrun
  split at hrun
  · rename_i start look opening stat turns
    split at hrun
    · cases hrun
    · split at hrun
      · cases hrun
      · rename_i object hopened
        obtain ⟨hnames, -, -⟩ := openRegularNofollow_ok hopened
        simp only [List.pairwise_cons] at horder
        obtain ⟨-, -, hopening, -, hturns⟩ := horder
        obtain ⟨first, hf, last, hl, check, hc, hfl, hlc, hbefore, hafter, hread, hthrough,
          hmatches⟩ := hashOpened_whole hstamped hturns hrun
        refine ⟨hread, object, opening, by simp, first, by simp [hf], last, by simp [hl], check,
          by simp [hc], ?_⟩
        exact
          { inOrder := ⟨hopening first (List.mem_cons_of_mem stat hf), hfl, hlc⟩
            opened := hnames
            before := hbefore
            after := hafter
            throughout := hthrough
            there := pathObjectMatches_ok hmatches }
  · split at hrun
    · cases hrun
    · cases hrun
  · cases hrun

end Reader

/-! ## An object nobody touches -/

section Still

variable {hash : Bytes → Bytes} {h : History} {path : Bytes} {object : Nat} {c : Bytes}
  {id : FileIdentity} {turn : Turn}

/-- At this turn nothing stops or fails the reader, and it meets this object with this content. -/
structure Still (h : History) (path : Bytes) (object : Nat) (c : Bytes) (id : FileIdentity)
    (turn : Turn) : Prop where
  goesOn : turn.stop = false
  answered : turn.fault = none
  named : (h turn.moment).names path = some object
  content : h.content object turn.moment = c
  identity : h.identity object turn.moment = id
  foreign : (h turn.moment).ownDatabase ⟨id.dev, id.ino⟩ = false

namespace Still

theorem objectId (s : Still h path object c id turn) :
    ((h turn.moment).objects object).1 = ⟨id.dev, id.ino⟩ := by
  rw [← s.identity]
  rfl

theorem lstat_eq (s : Still h path object c id turn) :
    lstat h path turn = .ok ((h turn.moment).objects object) := by
  unfold lstat
  rw [s.answered, s.named]

theorem fstat_eq (s : Still h path object c id turn) : fstat h object turn = .ok id := by
  unfold fstat
  rw [s.answered, ← s.identity]

theorem refuse_eq (s : Still h path object c id turn) :
    refuseIfOpenDatabase h turn ⟨id.dev, id.ino⟩ = .ok () := by
  unfold refuseIfOpenDatabase
  simp [s.foreign]

theorem lookFirst_eq (s : Still h path object c id turn) : lookFirst h path turn = .ok () := by
  unfold lookFirst
  rw [s.lstat_eq]
  show refuseIfOpenDatabase h turn ((h turn.moment).objects object).1 = .ok ()
  rw [s.objectId, s.refuse_eq]

theorem openNofollow_eq (s : Still h path object c id turn) (hkind : id.kind = .regular) :
    openNofollow h path turn = .ok object := by
  have hnode : (h.node object turn.moment).kind = .regular := by
    rw [← hkind, ← s.identity]
    rfl
  unfold openNofollow
  rw [s.answered, s.named]
  simp [hnode]

theorem pathObjectMatches_eq (s : Still h path object c id turn) :
    pathObjectMatches h path id.dev id.ino turn = .ok () := by
  have hid := s.objectId
  unfold pathObjectMatches
  rw [s.lstat_eq]
  generalize (h turn.moment).objects object = found at hid
  obtain ⟨i, n⟩ := found
  dsimp only at hid
  subst hid
  simp

end Still

theorem openRegularNofollow_eq {look opening stat : Turn} (hlook : Still h path object c id look)
    (hopening : Still h path object c id opening) (hstat : Still h path object c id stat)
    (hkind : id.kind = .regular) : openRegularNofollow h path look opening stat = .ok object := by
  unfold openRegularNofollow
  rw [hlook.lookFirst_eq]
  dsimp only
  rw [hopening.openNofollow_eq hkind]
  dsimp only
  rw [hstat.fstat_eq]
  dsimp only
  rw [hstat.refuse_eq]
  simp [hkind]

/-- **A read that nothing disturbs** ends, with the digest of the content and every byte counted. -/
theorem hashFileVerified_undisturbed {turns : List Turn}
    (hstill : ∀ turn ∈ turns, Still h path object c id turn) (hkind : id.kind = .regular)
    (hlen : c.length + 8 ≤ turns.length) :
    hashFileVerified hash h path turns = some (.ok (.whole (hash c) id), c.length) := by
  rcases turns with _ | ⟨start, _ | ⟨look, _ | ⟨opening, _ | ⟨stat, _ | ⟨first, turns⟩⟩⟩⟩⟩
  -- too few turns
  any_goals
    simp only [List.length_cons, List.length_nil] at hlen
    omega
  simp only [List.length_cons] at hlen
  simp only [List.forall_mem_cons] at hstill
  obtain ⟨hstart, hlook, hopening, hstat, hfirst, hturns⟩ := hstill
  have hreads : ∀ turn ∈ turns,
      turn.stop = false ∧ turn.fault = none ∧ h.content object turn.moment = c := by
    intro turn hturn
    obtain ⟨hgo, hfault, -, hcontent, -, -⟩ := hturns turn hturn
    exact ⟨hgo, hfault, hcontent⟩
  have hlong : c.length + 1 + 2 ≤ ([] : Bytes).length + turns.length := by
    simp only [List.length_nil]
    omega
  obtain ⟨used, rest, hrun, hused, hmore⟩ :=
    readChunks_undisturbed hreads List.nil_prefix hlong
  rcases rest with _ | ⟨last, _ | ⟨check, rest⟩⟩
  any_goals
    simp only [List.length_cons, List.length_nil] at hmore
    omega
  have hlast := hturns last (by simp [hused])
  have hcheck := hturns check (by simp [hused])
  rw [hashFileVerified, if_neg (by simp [hstart.goesOn]),
    openRegularNofollow_eq hlook hopening hstat hkind]
  dsimp only
  rw [hashOpened, hfirst.fstat_eq]
  dsimp only
  rw [hrun]
  dsimp only
  unfold settle identityStable
  rw [hlast.fstat_eq]
  dsimp only
  rw [if_pos rfl]
  dsimp only
  rw [hcheck.pathObjectMatches_eq]

end Still

end HashFile

end DedupCommando
