import DedupCommando.Kernel.Filesystem
import DedupCommando.Store.DuplicateGroups

/-!
# Byte verification, read by read

`verify_groups` with the reads it makes: every comparison opens both files and reads them in
chunks, a read may come short, and an open or a read may fail at any moment.

* `fill`, `compareChunks`, `files_equal` — one comparison; `files_equal_ok` — what it answers is
  whether the contents are equal.
* `place`, `placeAll`, `verify_groups` — the populations of each group, with the comparisons made.
* `Classed` — the populations are the classes of equal content, in the order they began.
* `verify_groups_classes` — **what comes back are the classes of at least two files, and it comes
  back exactly when no comparison failed.**
* `verify_groups_eq` — with comparisons that do not depend on the moment it is `verifyGroups`.
-/

set_option autoImplicit false

namespace DedupCommando

namespace Verify

/-! ## One comparison -/

def BUFFER_SIZE : Nat := 64 * 1024

/-- How the reads of one open file turn out: the `i`-th fails, or returns so many bytes at most. -/
abbrev Schedule := Nat → Except IoError Nat

/-- An open file: what is left of it, and how often it was read. -/
structure Reader where
  rest : Bytes
  reads : Nat
  deriving DecidableEq

/-- One `read` into `space` free bytes: at least one of them, unless the file has ended. -/
def Reader.read (s : Schedule) (r : Reader) (space : Nat) : Except IoError (Bytes × Reader) :=
  match s r.reads with
  | .error e => .error e
  | .ok wish =>
    let count := min (max wish 1) space
    .ok (r.rest.take count, ⟨r.rest.drop count, r.reads + 1⟩)

/-- The loop of `read_chunk`; a round that goes on has filled at least one byte, so that `fuel`
    rounds fill `fuel` bytes. -/
def fill (s : Schedule) : Nat → Nat → Reader → Except IoError (Bytes × Reader)
  | 0, _, r => .ok ([], r)
  | fuel + 1, space, r =>
    if space = 0 then .ok ([], r)
    else match r.read s space with
      | .error e => .error e
      | .ok (got, r') =>
        if got = [] then .ok ([], r')
        else match fill s fuel (space - got.length) r' with
          | .error e => .error e
          | .ok (more, r'') => .ok (got ++ more, r'')

/-- `read_chunk` into a buffer of `size` bytes. -/
def read_chunk (s : Schedule) (size : Nat) (r : Reader) : Except IoError (Bytes × Reader) :=
  fill s size size r

/-- The loop of `files_equal`; a round that goes on has read at least one byte of the first
    file. -/
def compareChunks (sa sb : Schedule) : Nat → Reader → Reader → Except IoError Bool
  | 0, _, _ => .ok false
  | fuel + 1, a, b =>
    match read_chunk sa BUFFER_SIZE a with
    | .error e => .error e
    | .ok (bufA, a') =>
      match read_chunk sb BUFFER_SIZE b with
      | .error e => .error e
      | .ok (bufB, b') =>
        if bufA.length ≠ bufB.length then .ok false
        else if bufA.length = 0 then .ok true
        else if bufA ≠ bufB then .ok false
        else compareChunks sa sb fuel a' b'

/-- How one comparison turns out: the opens, and the reads of each file. -/
structure Reading where
  openA : Option IoError
  openB : Option IoError
  readsA : Schedule
  readsB : Schedule

/-- `files_equal` on two files with these contents. -/
def files_equal (r : Reading) (a b : Bytes) : Except IoError Bool :=
  match r.openA with
  | some e => .error e
  | none =>
    match r.openB with
    | some e => .error e
    | none => compareChunks r.readsA r.readsB (a.length + 1) ⟨a, 0⟩ ⟨b, 0⟩

theorem fill_ok {s : Schedule} : ∀ {fuel space : Nat} {r r' : Reader} {got : Bytes},
    space ≤ fuel → fill s fuel space r = .ok (got, r') →
      got = r.rest.take space ∧ r'.rest = r.rest.drop space
  | 0, space, r, r', got, hspace, h => by
    have hzero : space = 0 := by omega
    cases h
    simp [hzero]
  | fuel + 1, space, r, r', got, hspace, h => by
    unfold fill at h
    split at h
    · rename_i hzero
      cases h
      simp [hzero]
    · rename_i hpos
      unfold Reader.read at h
      cases hs : s r.reads with
      | error e =>
        rw [hs] at h
        cases h
      | ok wish =>
        rw [hs] at h
        dsimp only at h
        -- between one byte and all the space
        generalize hcount : min (max wish 1) space = count at h
        have hle : count ≤ space := by omega
        have hone : 1 ≤ count := by omega
        split at h
        · rename_i hend
          cases h
          have hnil : r.rest = [] := by
            rcases List.take_eq_nil_iff.1 hend with hc | hr
            · omega
            · exact hr
          simp [hnil]
        · rename_i hgot
          split at h
          · cases h
          · rename_i more r'' hmore
            cases h
            have hlen : 1 ≤ (r.rest.take count).length := by
              rw [Nat.one_le_iff_ne_zero]
              exact fun h0 => hgot (List.length_eq_zero_iff.1 h0)
            obtain ⟨hm, hr⟩ := fill_ok (by omega) hmore
            rw [List.length_take] at hm hr
            dsimp only at hm hr
            by_cases hshort : count ≤ r.rest.length
            · have hmin : min count r.rest.length = count := Nat.min_eq_left hshort
              rw [hmin] at hm hr
              refine ⟨?_, ?_⟩
              · rw [hm, ← List.take_add, Nat.add_sub_cancel' hle]
              · rw [hr, List.drop_drop, Nat.add_sub_cancel' hle]
            · have hdrop : r.rest.drop count = [] := List.drop_eq_nil_of_le (by omega)
              rw [hdrop] at hm hr
              simp only [List.take_nil, List.drop_nil] at hm hr
              refine ⟨?_, ?_⟩
              · rw [hm, List.append_nil, List.take_of_length_le (by omega),
                  List.take_of_length_le (by omega)]
              · rw [hr, List.drop_eq_nil_of_le (by omega)]

theorem read_chunk_ok {s : Schedule} {size : Nat} {r r' : Reader} {got : Bytes}
    (h : read_chunk s size r = .ok (got, r')) :
    got = r.rest.take size ∧ r'.rest = r.rest.drop size :=
  fill_ok (Nat.le_refl _) h

theorem compareChunks_ok {sa sb : Schedule} : ∀ {fuel : Nat} {a b : Reader} {r : Bool},
    a.rest.length < fuel → compareChunks sa sb fuel a b = .ok r → r = decide (a.rest = b.rest)
  | 0, _, _, _, hfuel, _ => by omega
  | fuel + 1, a, b, r, hfuel, h => by
    unfold compareChunks at h
    split at h
    · cases h
    · rename_i bufA a' ha
      split at h
      · cases h
      · rename_i bufB b' hb
        obtain ⟨rfl, ha'⟩ := read_chunk_ok ha
        obtain ⟨rfl, hb'⟩ := read_chunk_ok hb
        split at h
        · rename_i hlen
          cases h
          refine (decide_eq_false fun heq => hlen ?_).symm
          rw [heq]
        · rename_i hlen
          have hsize : 0 < BUFFER_SIZE := by decide
          split at h
          · rename_i hzero
            cases h
            rw [hzero] at hlen
            rw [List.length_take] at hzero
            have hnotlen : (b.rest.take BUFFER_SIZE).length = 0 := by
              rw [List.length_take] at hlen ⊢
              omega
            rw [List.length_take] at hnotlen
            have hanil : a.rest = [] := List.length_eq_zero_iff.1 (by omega)
            have hbnil : b.rest = [] := List.length_eq_zero_iff.1 (by omega)
            rw [hanil, hbnil]
            rfl
          · rename_i hzero
            split at h
            · rename_i hdiffer
              cases h
              refine (decide_eq_false fun heq => hdiffer ?_).symm
              rw [heq]
            · rename_i hsame
              have hsame' : a.rest.take BUFFER_SIZE = b.rest.take BUFFER_SIZE :=
                not_not.1 hsame
              have hshorter : a'.rest.length < fuel := by
                rw [ha', List.length_drop]
                rw [List.length_take] at hzero
                omega
              rw [compareChunks_ok hshorter h, ha', hb']
              -- the chunks were equal, so the rest decides
              refine decide_eq_decide.2 ⟨fun hrest => ?_, fun heq => by rw [heq]⟩
              rw [← List.take_append_drop BUFFER_SIZE a.rest, hsame', hrest,
                List.take_append_drop]

/-- **An answered comparison tells whether the contents are equal**, however the reads came. -/
theorem files_equal_ok {r : Reading} {a b : Bytes} {equal : Bool}
    (h : files_equal r a b = .ok equal) : equal = decide (a = b) := by
  unfold files_equal at h
  split at h
  · cases h
  · split at h
    · cases h
    · exact compareChunks_ok (Nat.lt_succ_self _) h

/-! ## Populations -/

/-- The files behind the pathnames, and how the `n`-th comparison of the call turns out. -/
structure Disk where
  content : Bytes → Bytes
  reading : Nat → Reading

/-- Two pathnames that were compared. -/
abbrev Pair := Bytes × Bytes

namespace Disk

def compare (d : Disk) (n : Nat) (pair : Pair) : Except IoError Bool :=
  files_equal (d.reading n) (d.content pair.1) (d.content pair.2)

/-- Every comparison made so far was answered. -/
def Answered (d : Disk) (log : List Pair) : Prop :=
  ∀ n pair, log[n]? = some pair → ∃ r, d.compare n pair = .ok r

end Disk

/-- A population: its representative, and the files found equal to it. -/
structure Population where
  representative : FileEntry
  others : List FileEntry

namespace Population

def files (p : Population) : List FileEntry := p.representative :: p.others

def push (p : Population) (file : FileEntry) : Population := { p with others := p.others ++ [file] }

end Population

/-- `comparison_failure` -/
def comparison_failure (a b : Bytes) (source : IoError) : AppError :=
  ⟨"byte verification failed: cannot compare '" ++ terminal a.display ++ "' and '" ++
    terminal b.display ++ "': " ++ source.text⟩

/-- One file goes to the first population it equals, or begins its own; `log` holds the
    comparisons made so far. -/
def place (d : Disk) (file : FileEntry) :
    List Pair → List Population → Except AppError (List Population) × List Pair
  | log, [] => (.ok [⟨file, []⟩], log)
  | log, p :: ps =>
    let pair := (p.representative.path, file.path)
    match d.compare log.length pair with
    | .error source => (.error (comparison_failure pair.1 pair.2 source), log ++ [pair])
    | .ok true => (.ok (p.push file :: ps), log ++ [pair])
    | .ok false =>
      match place d file (log ++ [pair]) ps with
      | (.error e, log') => (.error e, log')
      | (.ok placed, log') => (.ok (p :: placed), log')

def placeAll (d : Disk) :
    List Pair → List Population → List FileEntry → Except AppError (List Population) × List Pair
  | log, ps, [] => (.ok ps, log)
  | log, ps, file :: files =>
    match place d file log ps with
    | (.error e, log') => (.error e, log')
    | (.ok ps', log') => placeAll d log' ps' files

def verifyEach (d : Disk) :
    List Pair → List DuplicateGroup → Except AppError (List DuplicateGroup) × List Pair
  | log, [] => (.ok [], log)
  | log, group :: groups =>
    match placeAll d log [] group.files with
    | (.error e, log') => (.error e, log')
    | (.ok ps, log') =>
      match verifyEach d log' groups with
      | (.error e, log'') => (.error e, log'')
      | (.ok verified, log'') =>
        (.ok (survivors group.hash (ps.map Population.files) ++ verified), log'')

/-- The ids are reassigned over the whole result. -/
def renumber (groups : List DuplicateGroup) : List DuplicateGroup :=
  groups.mapIdx fun i g => { g with id := i }

/-- `verify_groups`, with the comparisons it made. -/
def verify_groups (d : Disk) (groups : List DuplicateGroup) :
    Except AppError (List DuplicateGroup) × List Pair :=
  match verifyEach d [] groups with
  | (.error e, log) => (.error e, log)
  | (.ok verified, log) => (.ok (renumber verified), log)

/-! ## Comparisons that fail -/

section Failures

variable {d : Disk} {log log' : List Pair}

theorem answered_snoc {pair : Pair} :
    d.Answered (log ++ [pair]) ↔ d.Answered log ∧ ∃ r, d.compare log.length pair = .ok r := by
  constructor
  · intro h
    refine ⟨fun n q hq => h n q ?_, h log.length pair (by simp)⟩
    rw [List.getElem?_append_left (List.getElem?_eq_some_iff.1 hq).1]
    exact hq
  · rintro ⟨hlog, hlast⟩ n q hq
    rcases Nat.lt_trichotomy n log.length with hn | rfl | hn
    · rw [List.getElem?_append_left hn] at hq
      exact hlog n q hq
    · simp only [List.getElem?_concat_length, Option.some.injEq] at hq
      exact hq ▸ hlast
    · rw [List.getElem?_eq_none (by simp; omega)] at hq
      cases hq

/-- How a step of the call ends: answered as far as it was before, or with the failure of its last
    comparison. -/
def Ends {α : Type} (d : Disk) (log : List Pair) : Except AppError α × List Pair → Prop
  | (.ok _, log') => d.Answered log' ↔ d.Answered log
  | (.error e, log') => ¬ d.Answered log' ∧
      ∃ a b source, (a, b) ∈ log' ∧ e = comparison_failure a b source

theorem place_ends (file : FileEntry) : ∀ (log : List Pair) (ps : List Population),
    Ends d log (place d file log ps)
  | log, [] => Iff.rfl
  | log, p :: ps => by
    unfold place
    dsimp only
    split
    · rename_i source hfail
      refine ⟨fun h => ?_, _, _, source, List.mem_concat_self, rfl⟩
      obtain ⟨r, hr⟩ := (answered_snoc.1 h).2
      rw [hfail] at hr
      cases hr
    · rename_i htrue
      exact answered_snoc.trans (and_iff_left ⟨true, htrue⟩)
    · rename_i hfalse
      have hrest := place_ends file (log ++ [(p.representative.path, file.path)]) ps
      split
      · rename_i e log' heq
        rw [heq] at hrest
        exact hrest
      · rename_i placed log' heq
        rw [heq] at hrest
        exact hrest.trans (answered_snoc.trans (and_iff_left ⟨false, hfalse⟩))

theorem placeAll_ends : ∀ (files : List FileEntry) (log : List Pair) (ps : List Population),
    Ends d log (placeAll d log ps files)
  | [], log, ps => Iff.rfl
  | file :: files, log, ps => by
    have hplace := place_ends (d := d) file log ps
    unfold placeAll
    split
    · rename_i e log' heq
      rw [heq] at hplace
      exact hplace
    · rename_i ps' log' heq
      rw [heq] at hplace
      have hrest := placeAll_ends files log' ps'
      generalize placeAll d log' ps' files = result at hrest
      obtain ⟨r, log''⟩ := result
      cases r with
      | ok placed => exact Iff.trans hrest hplace
      | error e => exact hrest

theorem verifyEach_ends : ∀ (groups : List DuplicateGroup) (log : List Pair),
    Ends d log (verifyEach d log groups)
  | [], log => Iff.rfl
  | group :: groups, log => by
    have hplace := placeAll_ends (d := d) group.files log []
    unfold verifyEach
    split
    · rename_i e log' heq
      rw [heq] at hplace
      exact hplace
    · rename_i ps log' heq
      rw [heq] at hplace
      have hrest := verifyEach_ends groups log'
      split
      · rename_i e log'' hrun
        rw [hrun] at hrest
        exact hrest
      · rename_i verified log'' hrun
        rw [hrun] at hrest
        exact Iff.trans hrest hplace

end Failures

/-! ## Classes -/

section Classes

variable {d : Disk} {log log' : List Pair}

/-- What a file is compared by. -/
def Disk.of (d : Disk) (file : FileEntry) : Bytes := d.content file.path

/-- **The populations of `files` are its classes of equal content.** -/
structure Classed (d : Disk) (files : List FileEntry) (ps : List Population) : Prop where
  whole : ∀ p ∈ ps, p.files = files.filter fun f => decide (d.of f = d.of p.representative)
  distinct : (ps.map fun p => d.of p.representative).Nodup
  perm : (ps.flatMap Population.files).Perm files

/-- Where a placed file goes. -/
theorem place_ok {file : FileEntry} : ∀ {log log' : List Pair} {ps placed : List Population},
    place d file log ps = (.ok placed, log') →
      (∃ before p after, ps = before ++ p :: after ∧ placed = before ++ p.push file :: after ∧
        d.of p.representative = d.of file) ∨
      (placed = ps ++ [⟨file, []⟩] ∧ ∀ p ∈ ps, d.of p.representative ≠ d.of file)
  | log, log', [], placed, h => by
    cases h
    exact .inr ⟨rfl, fun _ h => absurd h List.not_mem_nil⟩
  | log, log', p :: ps, placed, h => by
    unfold place at h
    dsimp only at h
    split at h
    · cases h
    · rename_i htrue
      cases h
      exact .inl ⟨[], p, ps, rfl, rfl, of_decide_eq_true (files_equal_ok htrue).symm⟩
    · rename_i hfalse
      have hne : d.of p.representative ≠ d.of file :=
        of_decide_eq_false (files_equal_ok hfalse).symm
      split at h
      · cases h
      · rename_i placed' log'' heq
        cases h
        rcases place_ok heq with ⟨before, q, after, rfl, rfl, hq⟩ | ⟨rfl, hall⟩
        · exact .inl ⟨p :: before, q, after, rfl, rfl, hq⟩
        · refine .inr ⟨rfl, fun q hq => ?_⟩
          rcases List.mem_cons.1 hq with rfl | hq
          · exact hne
          · exact hall q hq

/-- **Placing one file keeps the classes.** -/
theorem Classed.place {file : FileEntry} {files : List FileEntry} {ps placed : List Population}
    (hps : Classed d files ps) (h : place d file log ps = (.ok placed, log')) :
    Classed d (files ++ [file]) placed := by
  obtain ⟨hfiles, hdistinct, hperm⟩ := hps
  rcases place_ok h with ⟨before, p, after, rfl, rfl, hp⟩ | ⟨rfl, hnew⟩
  · have hkeys : (before ++ p.push file :: after).map (fun q => d.of q.representative) =
        (before ++ p :: after).map fun q => d.of q.representative := by
      simp [Population.push]
    refine ⟨?_, hkeys ▸ hdistinct, ?_⟩
    · -- only the population that took the file has its content
      have hothers : ∀ q, q ∈ before ∨ q ∈ after → d.of file ≠ d.of q.representative := by
        intro q hq heq
        rw [List.map_append, List.map_cons, List.nodup_append, List.nodup_cons] at hdistinct
        obtain ⟨-, ⟨hafter, -⟩, hcross⟩ := hdistinct
        rcases hq with hq | hq
        · exact hcross _ (List.mem_map_of_mem hq) _ List.mem_cons_self (heq.symm.trans hp.symm)
        · exact hafter (List.mem_map.2 ⟨q, hq, heq.symm.trans hp.symm⟩)
      have hold : ∀ q ∈ before ++ p :: after, d.of file ≠ d.of q.representative →
          q.files = (files ++ [file]).filter fun f => decide (d.of f = d.of q.representative) := by
        intro q hq hne
        rw [List.filter_append, List.filter_singleton, decide_eq_false hne,
          hfiles q hq]
        simp
      intro q hq
      rcases List.mem_append.1 hq with hq | hq
      · exact hold q (List.mem_append_left _ hq) (hothers q (.inl hq))
      · rcases List.mem_cons.1 hq with rfl | hq
        · have hself := hfiles p (List.mem_append_right _ List.mem_cons_self)
          show Population.files (p.push file) = _
          have hrep : (p.push file).representative = p.representative := rfl
          rw [hrep, List.filter_append, List.filter_singleton, decide_eq_true hp.symm, ← hself]
          simp [Population.files, Population.push]
        · exact hold q (List.mem_append_right _ (List.mem_cons_of_mem _ hq)) (hothers q (.inr hq))
    · have hmove : ((before ++ p.push file :: after).flatMap Population.files).Perm
          ((before ++ p :: after).flatMap Population.files ++ [file]) := by
        have hpush : (p.push file).files = p.files ++ [file] := by
          simp [Population.files, Population.push]
        simp only [List.flatMap_append, List.flatMap_cons, hpush, List.append_assoc]
        have hcomm : ([file] ++ after.flatMap Population.files).Perm
            (after.flatMap Population.files ++ [file]) := List.perm_append_comm
        exact (hcomm.append_left p.files).append_left _
      exact hmove.trans (hperm.append_right [file])
  · refine ⟨?_, ?_, ?_⟩
    · intro q hq
      rcases List.mem_append.1 hq with hq | hq
      · rw [List.filter_append, List.filter_singleton,
          decide_eq_false fun h => hnew q hq h.symm, hfiles q hq]
        simp
      · rw [List.mem_singleton.1 hq]
        have hnone : files.filter (fun f => decide (d.of f = d.of file)) = [] := by
          rw [List.filter_eq_nil_iff]
          intro f hf hsame
          obtain ⟨p, hp, hfp⟩ := List.mem_flatMap.1 (hperm.mem_iff.2 hf)
          rw [hfiles p hp, List.mem_filter] at hfp
          exact hnew p hp ((of_decide_eq_true hfp.2).symm.trans (of_decide_eq_true hsame))
        rw [List.filter_append, hnone]
        simp [Population.files]
    · rw [List.map_append, List.map_singleton]
      refine List.Nodup.append hdistinct (List.nodup_singleton _) ?_
      intro c hc hc'
      obtain ⟨p, hp, rfl⟩ := List.mem_map.1 hc
      exact hnew p hp (List.mem_singleton.1 hc')
    · rw [List.flatMap_append]
      simp only [List.flatMap_cons, List.flatMap_nil, List.append_nil, Population.files]
      exact hperm.append_right [file]

theorem classed_placeAll : ∀ {files seen : List FileEntry} {log log' : List Pair}
    {ps placed : List Population}, Classed d seen ps →
      placeAll d log ps files = (.ok placed, log') → Classed d (seen ++ files) placed
  | [], seen, log, log', ps, placed, hps, h => by
    cases h
    rwa [List.append_nil]
  | file :: files, seen, log, log', ps, placed, hps, h => by
    unfold placeAll at h
    split at h
    · cases h
    · rename_i ps' log'' heq
      have hrest := classed_placeAll (hps.place heq) h
      rwa [List.append_assoc] at hrest

theorem classed_nil : Classed d [] [] :=
  ⟨fun _ h => absurd h List.not_mem_nil, List.nodup_nil, List.Perm.nil⟩

/-- The files of `files` with the content of `file`. -/
def Disk.twins (d : Disk) (files : List FileEntry) (file : FileEntry) : List FileEntry :=
  files.filter fun f => decide (d.of f = d.of file)

/-- What becomes of one group. -/
structure Partition (d : Disk) (g : DuplicateGroup) (part : List DuplicateGroup) : Prop where
  hash : ∀ v ∈ part, v.hash = g.hash
  size : ∀ v ∈ part, ∃ f, v.files.head? = some f ∧ v.sizeBytes = f.size
  two : ∀ v ∈ part, 2 ≤ v.files.length
  /-- a returned group is a whole class, in the order of the input -/
  whole : ∀ v ∈ part, ∃ f ∈ g.files, v.files = d.twins g.files f
  /-- two files come back together exactly when their bytes are equal -/
  together : ∀ a ∈ g.files, ∀ b ∈ g.files, (∃ v ∈ part, a ∈ v.files ∧ b ∈ v.files) ↔
    d.of a = d.of b ∧ 2 ≤ (d.twins g.files a).length
  /-- every file with an equal partner comes back once, and no other -/
  once : (part.flatMap DuplicateGroup.files).Perm
    (g.files.filter fun f => decide (2 ≤ (d.twins g.files f).length))

theorem mem_survivors {hash : Bytes} {ps : List Population} {v : DuplicateGroup} :
    v ∈ survivors hash (ps.map Population.files) ↔
      ∃ p ∈ ps, 2 ≤ p.files.length ∧ v = ⟨0, p.representative.size, hash, p.files⟩ := by
  simp only [survivors, List.mem_map, List.mem_filter, decide_eq_true_eq]
  constructor
  · rintro ⟨_, ⟨⟨p, hp, rfl⟩, htwo⟩, rfl⟩
    exact ⟨p, hp, htwo, rfl⟩
  · rintro ⟨p, hp, htwo, rfl⟩
    exact ⟨p.files, ⟨⟨p, hp, rfl⟩, htwo⟩, rfl⟩

theorem Classed.twins_eq {files : List FileEntry} {ps : List Population} (h : Classed d files ps)
    {p : Population} (hp : p ∈ ps) {f : FileEntry} (hf : f ∈ p.files) :
    p.files = d.twins files f := by
  have hwhole := h.whole p hp
  rw [hwhole, List.mem_filter] at hf
  rw [hwhole, Disk.twins, of_decide_eq_true hf.2]

/-- **The populations that survive are the classes of at least two files.** -/
theorem Classed.partition {g : DuplicateGroup} {ps : List Population}
    (h : Classed d g.files ps) :
    Partition d g (survivors g.hash (ps.map Population.files)) := by
  have hmem : ∀ f, f ∈ g.files ↔ ∃ p ∈ ps, f ∈ p.files := fun f => by
    rw [← h.perm.mem_iff, List.mem_flatMap]
  refine ⟨?_, ?_, ?_, ?_, ?_, ?_⟩
  · intro v hv
    obtain ⟨p, -, -, rfl⟩ := mem_survivors.1 hv
    rfl
  · intro v hv
    obtain ⟨p, -, -, rfl⟩ := mem_survivors.1 hv
    exact ⟨p.representative, rfl, rfl⟩
  · intro v hv
    obtain ⟨p, -, htwo, rfl⟩ := mem_survivors.1 hv
    exact htwo
  · intro v hv
    obtain ⟨p, hp, -, rfl⟩ := mem_survivors.1 hv
    have hrep : p.representative ∈ p.files := List.mem_cons_self
    exact ⟨p.representative, (hmem _).2 ⟨p, hp, hrep⟩, h.twins_eq hp hrep⟩
  · intro a ha b hb
    constructor
    · rintro ⟨v, hv, hav, hbv⟩
      obtain ⟨p, hp, htwo, rfl⟩ := mem_survivors.1 hv
      have htwins := h.twins_eq hp hav
      refine ⟨?_, htwins ▸ htwo⟩
      have hbt : b ∈ d.twins g.files a := htwins ▸ hbv
      exact (of_decide_eq_true (List.mem_filter.1 hbt).2).symm
    · rintro ⟨heq, htwo⟩
      obtain ⟨p, hp, hap⟩ := (hmem a).1 ha
      have htwins := h.twins_eq hp hap
      refine ⟨_, mem_survivors.2 ⟨p, hp, htwins ▸ htwo, rfl⟩, hap, ?_⟩
      show b ∈ p.files
      rw [htwins]
      exact List.mem_filter.2 ⟨hb, decide_eq_true heq.symm⟩
  · have hkept : ∀ qs : List Population, (∀ q ∈ qs, q ∈ ps) →
        (survivors g.hash (qs.map Population.files)).flatMap DuplicateGroup.files =
          (qs.flatMap Population.files).filter fun f =>
            decide (2 ≤ (d.twins g.files f).length) := by
      intro qs
      induction qs with
      | nil => exact fun _ => rfl
      | cons q qs ih =>
        intro hqs
        have hq := hqs q List.mem_cons_self
        have hrest := ih fun p hp => hqs p (List.mem_cons_of_mem _ hp)
        have hall : ∀ f ∈ q.files, decide (2 ≤ (d.twins g.files f).length) =
            decide (2 ≤ q.files.length) := fun f hf => by rw [h.twins_eq hq hf]
        rw [List.flatMap_cons, List.filter_append, ← hrest, List.filter_congr hall]
        by_cases htwo : 2 ≤ q.files.length
        · simp [survivors, htwo]
        · simp [survivors, htwo]
    rw [hkept ps fun _ hp => hp]
    exact h.perm.filter _

end Classes

/-! ## The whole call -/

section Call

variable {d : Disk}

theorem verifyEach_partition : ∀ {groups : List DuplicateGroup} {log log' : List Pair}
    {verified : List DuplicateGroup}, verifyEach d log groups = (.ok verified, log') →
      ∃ parts, List.Forall₂ (Partition d) groups parts ∧ verified = parts.flatten
  | [], log, log', verified, h => by
    cases h
    exact ⟨[], .nil, rfl⟩
  | group :: groups, log, log', verified, h => by
    unfold verifyEach at h
    split at h
    · cases h
    · rename_i ps log'' hplace
      split at h
      · cases h
      · rename_i rest log''' hrest
        cases h
        obtain ⟨parts, hparts, rfl⟩ := verifyEach_partition hrest
        have hclassed := classed_placeAll classed_nil hplace
        rw [List.nil_append] at hclassed
        exact ⟨_ :: parts, .cons hclassed.partition hparts, rfl⟩

/-- What the call answers, group by group, and what a failed comparison makes of it. -/
structure Verified (d : Disk) (groups : List DuplicateGroup)
    (result : Except AppError (List DuplicateGroup)) (log : List Pair) : Prop where
  classes : ∀ out, result = .ok out → ∃ parts, List.Forall₂ (Partition d) groups parts ∧
    out = renumber parts.flatten
  fails : ∀ n pair source, log[n]? = some pair → d.compare n pair = .error source →
    ∃ e, result = .error e
  named : ∀ e, result = .error e → ∃ a b source, (a, b) ∈ log ∧ e = comparison_failure a b source

/-- **`verify_groups` returns the classes of at least two byte-equal files**, whatever the files
    hold and however their reads come, and a comparison that fails fails the call. -/
theorem verify_groups_classes (d : Disk) (groups : List DuplicateGroup) :
    Verified d groups (verify_groups d groups).1 (verify_groups d groups).2 := by
  have hends := verifyEach_ends (d := d) groups []
  have hpart : ∀ verified log, verifyEach d [] groups = (.ok verified, log) →
      ∃ parts, List.Forall₂ (Partition d) groups parts ∧ verified = parts.flatten :=
    fun _ _ h => verifyEach_partition h
  unfold verify_groups
  generalize verifyEach d [] groups = result at hends hpart
  obtain ⟨r, log⟩ := result
  cases r with
  | error e =>
    refine ⟨fun _ h => (by cases h), fun _ _ _ _ _ => ⟨e, rfl⟩, fun e' he' => ?_⟩
    cases he'
    exact hends.2
  | ok verified =>
    refine ⟨fun out hout => ?_, fun n pair source hn hfail => ?_, fun e he => (by cases he)⟩
    · cases hout
      obtain ⟨parts, hparts, rfl⟩ := hpart verified log rfl
      exact ⟨parts, hparts, rfl⟩
    · obtain ⟨r, hr⟩ := hends.2 (fun _ _ h => (by cases h)) n pair hn
      rw [hfail] at hr
      cases hr

/-! ## The model without reads -/

theorem placeFile_of_place {file : FileEntry} : ∀ {log log' : List Pair}
    {ps placed : List Population}, place d file log ps = (.ok placed, log') →
      placeFile (fun a b => .ok (decide (d.content a = d.content b))) file
        (ps.map Population.files) = .ok (placed.map Population.files)
  | log, log', [], placed, h => by
    cases h
    rfl
  | log, log', p :: ps, placed, h => by
    unfold place at h
    dsimp only at h
    have hcons : (p :: ps).map Population.files =
        (p.representative :: p.others) :: ps.map Population.files := rfl
    rw [hcons, placeFile]
    split at h
    · cases h
    · rename_i htrue
      cases h
      rw [← files_equal_ok htrue]
      rfl
    · rename_i hfalse
      rw [← files_equal_ok hfalse]
      split at h
      · cases h
      · rename_i placed' log'' heq
        cases h
        rw [placeFile_of_place heq]
        rfl

theorem placeFiles_of_placeAll : ∀ {files : List FileEntry} {log log' : List Pair}
    {ps placed : List Population}, placeAll d log ps files = (.ok placed, log') →
      placeFiles (fun a b => .ok (decide (d.content a = d.content b))) (ps.map Population.files)
        files = .ok (placed.map Population.files)
  | [], log, log', ps, placed, h => by
    cases h
    rfl
  | file :: files, log, log', ps, placed, h => by
    unfold placeAll at h
    split at h
    · cases h
    · rename_i ps' log'' heq
      unfold placeFiles
      rw [placeFile_of_place heq]
      exact placeFiles_of_placeAll h

theorem verifyEach_of_verifyEach : ∀ {groups : List DuplicateGroup} {log log' : List Pair}
    {verified : List DuplicateGroup}, verifyEach d log groups = (.ok verified, log') →
      DedupCommando.verifyEach (fun a b => .ok (decide (d.content a = d.content b))) groups =
        .ok verified
  | [], log, log', verified, h => by
    cases h
    rfl
  | group :: groups, log, log', verified, h => by
    unfold verifyEach at h
    split at h
    · cases h
    · rename_i ps log'' hplace
      split at h
      · cases h
      · rename_i rest log''' hrest
        cases h
        have hpops := placeFiles_of_placeAll hplace
        rw [List.map_nil] at hpops
        unfold DedupCommando.verifyEach
        rw [hpops, verifyEach_of_verifyEach hrest]

/-- A call that is answered is `verifyGroups` on the contents. -/
theorem verify_groups_eq {groups out : List DuplicateGroup}
    (h : (verify_groups d groups).1 = .ok out) :
    verifyGroups (fun a b => .ok (decide (d.content a = d.content b))) groups = .ok out := by
  unfold verify_groups at h
  split at h
  · cases h
  · rename_i verified log heq
    cases h
    unfold verifyGroups
    rw [verifyEach_of_verifyEach heq]
    rfl

end Call

/-! ## A group of two sizes -/

/-- An entry of the manifest, by its name and its size. -/
def entryOf (path : Bytes) (size : Nat) : FileEntry := ⟨path, size, 0, 0, 0, 0, 0, 0, 1⟩

/-- Two files of one byte and two of two bytes. -/
def twoSizes : Disk where
  content path := if path = [97] ∨ path = [98] then [1] else [2, 2]
  reading _ := ⟨none, none, fun _ => .ok 1, fun _ => .ok 7⟩

def mixedGroup : DuplicateGroup :=
  ⟨0, 1, [104], [entryOf [97] 1, entryOf [98] 1, entryOf [99] 2, entryOf [100] 2]⟩

/-- A returned group takes the size of its own first member, not the one of its group. -/
theorem not_size_kept : ∃ (d : Disk) (groups out : List DuplicateGroup),
    (verify_groups d groups).1 = .ok out ∧ ∃ v ∈ out, ∀ g ∈ groups, v.sizeBytes ≠ g.sizeBytes := by
  have hrun : ((verify_groups twoSizes [mixedGroup]).1.toOption.any fun out =>
      out.any fun v => decide (v.sizeBytes = 2)) = true := by decide +kernel
  obtain ⟨out, hout, hany⟩ := (Option.any_eq_true _ _).1 hrun
  obtain ⟨v, hv, hsize⟩ := List.any_eq_true.1 hany
  refine ⟨twoSizes, [mixedGroup], out, ?_, v, hv, fun g hg => ?_⟩
  · cases hr : (verify_groups twoSizes [mixedGroup]).1 with
    | error e =>
      rw [hr] at hout
      cases hout
    | ok out' =>
      rw [hr] at hout
      cases hout
      rfl
  · rw [List.mem_singleton.1 hg, of_decide_eq_true hsize]
    decide

end Verify

end DedupCommando
