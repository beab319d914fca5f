import DedupCommando.Model.Completeness
import DedupCommando.Store.Signatures

/-!
# The directories above a file

* `mem_accountable` — a build accounts for the directories above a file that are in scope.
* `forest` — these are the chains of a forest.
* `contextOf` — a snapshot is a context: what it suppresses it suppresses upward.
-/

set_option autoImplicit false

namespace DedupCommando

namespace Signatures

open CompletenessSnapshot (startsWithKey)

/-! ## Prefixes in scope -/

theorem startsWithKey_segments {p : Path} {r : PathKey} : startsWithKey p r = true ↔
    ∃ rest, p = .rootDir :: rest ∧ r.segments.map some <+: rest.map Component.name? := by
  unfold startsWithKey
  split
  · rename_i rest
    rw [List.isPrefixOf_iff_prefix]
    constructor
    · intro h
      exact ⟨rest, rfl, h⟩
    · rintro ⟨rest', heq, h⟩
      obtain ⟨-, rfl⟩ := List.cons.inj heq
      exact h
  · rename_i hne
    constructor
    · intro h
      cases h
    · rintro ⟨rest, rfl, -⟩
      exact absurd rfl (hne rest)

/-- A prefix of a path under a root is under it from the length of the root on. -/
theorem startsWithKey_take {p : Path} {r : PathKey} (h : startsWithKey p r = true) (n : Nat) :
    startsWithKey (p.take n) r = true ↔ r.segments.length + 1 ≤ n := by
  obtain ⟨rest, rfl, hprefix⟩ := startsWithKey_segments.mp h
  rw [startsWithKey_segments]
  cases n with
  | zero => simp
  | succ n =>
    have htake : r.segments.map some <+: (rest.take n).map Component.name? ↔
        r.segments.length ≤ n := by
      rw [List.map_take, List.prefix_take_iff, List.length_map]
      exact and_iff_right hprefix
    rw [List.take_succ_cons, Nat.add_le_add_iff_right, ← htake]
    constructor
    · rintro ⟨rest', heq, h⟩
      obtain ⟨-, rfl⟩ := List.cons.inj heq
      exact h
    · intro h
      exact ⟨_, rfl, h⟩

theorem startsWithKey_mono {p q : Path} {r : PathKey} (hpq : p <+: q)
    (h : startsWithKey p r = true) : startsWithKey q r = true := by
  obtain ⟨rest, rfl, hprefix⟩ := startsWithKey_segments.mp h
  obtain ⟨more, rfl⟩ := hpq
  rw [startsWithKey_segments]
  exact ⟨rest ++ more, rfl, hprefix.trans (by rw [List.map_append]; exact List.prefix_append _ _)⟩

theorem startsWithKey_length {p : Path} {r : PathKey} (h : startsWithKey p r = true) :
    r.segments.length + 1 ≤ p.length := by
  obtain ⟨rest, rfl, hprefix⟩ := startsWithKey_segments.mp h
  have hlen := hprefix.length_le
  simp only [List.length_map] at hlen
  simpa using hlen

/-- Of a root set, one root at most holds a path. -/
theorem RootSet.one (set : RootSet) {p : Path} {a b : PathKey} (ha : a ∈ set.roots)
    (hb : b ∈ set.roots) (hpa : startsWithKey p a = true) (hpb : startsWithKey p b = true) :
    a = b := by
  obtain ⟨rest, rfl, hprefix⟩ := startsWithKey_segments.mp hpa
  obtain ⟨rest', heq, hprefix'⟩ := startsWithKey_segments.mp hpb
  obtain ⟨-, rfl⟩ := List.cons.inj heq
  have hinj : Function.Injective (some : Bytes → Option Bytes) := Option.some_injective _
  obtain hle | hle := List.prefix_or_prefix_of_prefix hprefix hprefix'
  · apply set.apart a ha b hb
    rw [PathKey.isAtOrUnder_iff]
    exact (List.prefix_map_iff_of_injective hinj).mp hle
  · apply Eq.symm
    apply set.apart b hb a ha
    rw [PathKey.isAtOrUnder_iff]
    exact (List.prefix_map_iff_of_injective hinj).mp hle

/-- Prefixes of an absolute path, by their lengths from `lo` on, the longest first. -/
def prefixes (p : Path) (lo n : Nat) : List Path := ((List.range' lo (n - lo)).reverse).map p.take

theorem mem_prefixes {p e : Path} {lo n : Nat} :
    e ∈ prefixes p lo n ↔ ∃ k, lo ≤ k ∧ k < n ∧ p.take k = e := by
  unfold prefixes
  simp only [List.mem_map, List.mem_reverse, List.mem_range'_1]
  constructor
  · rintro ⟨k, ⟨hlo, hk⟩, he⟩
    exact ⟨k, hlo, by omega, he⟩
  · rintro ⟨k, hlo, hk, he⟩
    exact ⟨k, ⟨hlo, by omega⟩, he⟩

/-- Where one list of prefixes is cut, the shorter ones remain. -/
theorem prefixes_split (p : Path) {lo mid n : Nat} (hlo : lo ≤ mid) (hn : mid ≤ n) :
    prefixes p lo n = prefixes p mid n ++ prefixes p lo mid := by
  unfold prefixes
  rw [← List.map_append, ← List.reverse_append]
  congr 2
  have hlen : n - lo = (mid - lo) + (n - mid) := by omega
  rw [hlen, ← List.range'_append_1]
  congr 2
  omega

theorem prefixes_cons (p : Path) {lo n : Nat} (h : lo ≤ n) :
    prefixes p lo (n + 1) = p.take n :: prefixes p lo n := by
  rw [prefixes_split p h (Nat.le_succ n)]
  simp [prefixes]

/-- The shorter prefixes of a prefix are those of the path. -/
theorem prefixes_take (p : Path) (lo k : Nat) : prefixes (p.take k) lo (k + 1) = prefixes p lo (k + 1) := by
  unfold prefixes
  apply List.map_congr_left
  intro j hj
  rw [List.mem_reverse, List.mem_range'_1] at hj
  rw [List.take_take]
  congr 1
  omega

theorem nodup_prefixes (p : Path) {lo n : Nat} (hn : n ≤ p.length + 1) :
    (prefixes p lo n).Nodup := by
  unfold prefixes
  apply List.Nodup.map_on
  · intro i hi j hj heq
    rw [List.mem_reverse, List.mem_range'_1] at hi hj
    have hlen := congrArg List.length heq
    rw [List.length_take, List.length_take] at hlen
    omega
  · exact List.nodup_reverse.mpr List.nodup_range'

theorem parents_eq {p : Path} (h : p.isAbsolute = true) : p.parents = prefixes p 1 p.length := by
  obtain ⟨rest, rfl⟩ : ∃ rest, p = .rootDir :: rest := by
    unfold Path.isAbsolute at h
    cases p with
    | nil => simp at h
    | cons c rest =>
      obtain rfl : c = .rootDir := by simpa using h
      exact ⟨rest, rfl⟩
  unfold Path.parents prefixes
  have hrange : List.range (Component.rootDir :: rest).length = 0 :: List.range' 1 rest.length := by
    rw [List.length_cons, List.range_eq_range', List.range'_succ]
  rw [hrange, List.reverse_cons, List.map_append, List.filter_append]
  have hlast : (List.map (fun n => (Component.rootDir :: rest).take n) [0]).filter
      (fun q => decide (q ≠ []) || !Path.isAbsolute (Component.rootDir :: rest)) = [] := by
    simp [Path.isAbsolute]
  rw [hlast, List.append_nil, List.filter_eq_self.mpr]
  · simp
  · intro q hq
    obtain ⟨n, hn, rfl⟩ := List.mem_map.mp hq
    rw [List.mem_reverse, List.mem_range'_1] at hn
    obtain ⟨k, rfl⟩ : ∃ k, n = k + 1 := ⟨n - 1, by omega⟩
    simp

/-- Below the root it selects nothing, from there on everything. -/
theorem takeWhile_prefixes {p : Path} {r : PathKey} (h : startsWithKey p r = true) :
    (prefixes p 1 p.length).takeWhile (fun dir => startsWithKey dir r) =
      prefixes p (r.segments.length + 1) p.length := by
  have hlen := startsWithKey_length h
  rw [prefixes_split p (by omega : 1 ≤ r.segments.length + 1) hlen,
    List.takeWhile_append_of_pos]
  · have hnil : (prefixes p 1 (r.segments.length + 1)).takeWhile
        (fun dir => startsWithKey dir r) = [] := by
      cases hcons : prefixes p 1 (r.segments.length + 1) with
      | nil => rfl
      | cons e rest =>
        have he : e ∈ prefixes p 1 (r.segments.length + 1) := by rw [hcons]; exact List.mem_cons_self
        obtain ⟨k, -, hk, rfl⟩ := mem_prefixes.mp he
        have hno : ¬ startsWithKey (p.take k) r = true := by
          rw [startsWithKey_take h]
          omega
        rw [List.takeWhile_cons, if_neg hno]
    rw [hnil, List.append_nil]
  · intro e he
    obtain ⟨k, hk, -, rfl⟩ := mem_prefixes.mp he
    exact (startsWithKey_take h k).mpr hk

/-! ## The forest of a context -/

section Context

variable (ctx : SignatureContext)

theorem scope_cases (p : Path) :
    (ctx.bounds = none ∧ ctx.scope p = .unbounded) ∨
    (∃ set r, ctx.bounds = some set ∧ r ∈ set.roots ∧ startsWithKey p r = true ∧
      ctx.scope p = .root r) ∨
    (∃ set, ctx.bounds = some set ∧ (∀ r ∈ set.roots, startsWithKey p r = false) ∧
      ctx.scope p = .outside) := by
  unfold SignatureContext.scope scopeOf
  cases hb : ctx.bounds with
  | none => exact .inl ⟨rfl, rfl⟩
  | some set =>
    dsimp only
    cases hf : set.roots.find? fun root => startsWithKey p root with
    | some r => exact .inr (.inl ⟨set, r, rfl, List.mem_of_find?_eq_some hf, List.find?_some hf, rfl⟩)
    | none =>
      refine .inr (.inr ⟨set, rfl, fun r hr => ?_, rfl⟩)
      simpa using List.find?_eq_none.mp hf r hr

/-- The length of the shortest directory that a build accounts for above a path. -/
def lowest (scope : DirScope) : Nat :=
  match scope with
  | .root r => r.segments.length + 1
  | _ => 1

theorem accountable_eq {p : Path} (habs : p.isAbsolute = true) (hin : ctx.scope p ≠ .outside) :
    accountableAncestors p (ctx.scope p) = prefixes p (lowest (ctx.scope p)) p.length := by
  obtain ⟨-, hs⟩ | ⟨set, r, -, -, hp, hs⟩ | ⟨set, -, -, hs⟩ := scope_cases ctx p
  · rw [hs]
    exact parents_eq habs
  · rw [hs]
    change p.parents.takeWhile _ = _
    rw [parents_eq habs, takeWhile_prefixes hp]
    rfl
  · exact absurd hs hin

theorem lowest_le {p : Path} (habs : p.isAbsolute = true) : lowest (ctx.scope p) ≤ p.length := by
  have hpos : 1 ≤ p.length := by
    cases p with
    | nil => simp [Path.isAbsolute] at habs
    | cons c rest => simp
  obtain ⟨-, hs⟩ | ⟨set, r, -, -, hp, hs⟩ | ⟨set, -, -, hs⟩ := scope_cases ctx p
  · rw [hs]
    exact hpos
  · rw [hs]
    exact startsWithKey_length hp
  · rw [hs]
    exact hpos

/-- What lies under a directory in scope has the scope of that directory. -/
theorem scope_under {e p : Path} (hpre : e <+: p) (he : ctx.scope e ≠ .outside) :
    ctx.scope p = ctx.scope e := by
  obtain ⟨hb, hs⟩ | ⟨set, r, hb, hr, hstart, hs⟩ | ⟨set, -, -, hs⟩ := scope_cases ctx e
  · obtain ⟨-, hs'⟩ | ⟨set', r', hb', -⟩ | ⟨set', hb', -⟩ := scope_cases ctx p
    · rw [hs, hs']
    · rw [hb] at hb'
      cases hb'
    · rw [hb] at hb'
      cases hb'
  · have hp := startsWithKey_mono hpre hstart
    obtain ⟨hb', -⟩ | ⟨set', r', hb', hr', hstart', hs'⟩ | ⟨set', hb', hno, -⟩ := scope_cases ctx p
    · rw [hb] at hb'
      cases hb'
    · obtain rfl : set = set' := Option.some.inj (hb.symm.trans hb')
      rw [hs, hs', set.one hr hr' hp hstart']
    · obtain rfl : set = set' := Option.some.inj (hb.symm.trans hb')
      rw [hno r hr] at hp
      cases hp
  · exact absurd hs he

/-- A prefix that is long enough is in the scope of the path. -/
theorem scope_take {p : Path} (habs : p.isAbsolute = true) (hin : ctx.scope p ≠ .outside) {k : Nat}
    (hk : lowest (ctx.scope p) ≤ k) :
    Path.isAbsolute (p.take k) = true ∧ ctx.scope (p.take k) = ctx.scope p := by
  have hone : 1 ≤ k := by
    refine Nat.le_trans ?_ hk
    unfold lowest
    split <;> omega
  have habs' : Path.isAbsolute (p.take k) = true := by
    obtain ⟨n, rfl⟩ : ∃ n, k = n + 1 := ⟨k - 1, by omega⟩
    cases p with
    | nil => simp [Path.isAbsolute] at habs
    | cons c rest => simpa [Path.isAbsolute] using habs
  refine ⟨habs', ?_⟩
  have hin' : ctx.scope (p.take k) ≠ .outside := by
    obtain ⟨hb, hs⟩ | ⟨set, r, hb, hr, hstart, hs⟩ | ⟨set, -, -, hs⟩ := scope_cases ctx p
    · unfold SignatureContext.scope scopeOf
      rw [hb]
      exact fun h => by cases h
    · rw [hs] at hk
      have htake := (startsWithKey_take hstart k).mpr hk
      obtain ⟨hb', -⟩ | ⟨set', r', -, -, -, hs'⟩ | ⟨set', hb', hno, -⟩ :=
        scope_cases ctx (p.take k)
      · rw [hb] at hb'
        cases hb'
      · rw [hs']
        exact fun h => by cases h
      · obtain rfl : set = set' := Option.some.inj (hb.symm.trans hb')
        rw [hno r hr] at htake
        cases htake
    · exact absurd hs hin
  exact (scope_under ctx (List.take_prefix k p) hin').symm

/-- **The directories above a path that a build accounts for**: those that are in scope. -/
theorem mem_accountable {p e : Path} (habs : p.isAbsolute = true) :
    e ∈ accountableAncestors p (ctx.scope p) ↔
      e <+: p ∧ e ≠ p ∧ e.isAbsolute = true ∧ ctx.scope e ≠ .outside := by
  by_cases hin : ctx.scope p = .outside
  · rw [hin]
    constructor
    · intro h
      exact absurd h List.not_mem_nil
    · rintro ⟨hpre, -, -, he⟩
      exact absurd (hin ▸ scope_under ctx hpre he) (Ne.symm he)
  · rw [accountable_eq ctx habs hin, mem_prefixes]
    constructor
    · rintro ⟨k, hlo, hk, rfl⟩
      obtain ⟨habs', hs⟩ := scope_take ctx habs hin hlo
      refine ⟨List.take_prefix k p, fun heq => ?_, habs', by rw [hs]; exact hin⟩
      have hlen := congrArg List.length heq
      rw [List.length_take] at hlen
      omega
    · rintro ⟨hpre, hne, habs', he⟩
      have hs := scope_under ctx hpre he
      refine ⟨e.length, ?_, ?_, (List.prefix_iff_eq_take.mp hpre).symm⟩
      · rw [hs]
        exact lowest_le ctx habs'
      · have hle := hpre.length_le
        have hlt : e.length ≠ p.length := fun hlen => hne (hpre.eq_of_length hlen)
        omega

/-- The chain of a directory: itself and the directories above it in its scope. -/
def up (d : Path) : List Path :=
  if d.isAbsolute = true then d :: accountableAncestors d (ctx.scope d) else [d]

theorem up_eq {d : Path} (habs : d.isAbsolute = true) (hin : ctx.scope d ≠ .outside) :
    up ctx d = prefixes d (lowest (ctx.scope d)) (d.length + 1) := by
  rw [up, if_pos habs, accountable_eq ctx habs hin, prefixes_cons d (lowest_le ctx habs),
    List.take_length]

theorem mem_up {d e : Path} (habs : d.isAbsolute = true) :
    e ∈ up ctx d ↔ e = d ∨ e ∈ accountableAncestors d (ctx.scope d) := by
  rw [up, if_pos habs, List.mem_cons]

theorem forest : Nesting.Forest (up ctx) where
  head d := by
    unfold up
    split
    · exact ⟨_, rfl⟩
    · exact ⟨[], rfl⟩
  above d e he := by
    by_cases habs : d.isAbsolute = true
    · by_cases hin : ctx.scope d = .outside
      · have hd : up ctx d = [d] := by
          rw [up, if_pos habs, hin]
          rfl
        rw [hd, List.mem_singleton] at he
        rw [he]
      · rw [up_eq ctx habs hin] at he
        obtain ⟨k, hlo, hk, rfl⟩ := mem_prefixes.mp he
        obtain ⟨habs', hs⟩ := scope_take ctx habs hin hlo
        have hlen : (d.take k).length = k := by
          rw [List.length_take]
          omega
        rw [up_eq ctx habs' (by rw [hs]; exact hin), up_eq ctx habs hin, hs, hlen, prefixes_take,
          prefixes_split d (Nat.le_succ_of_le hlo) hk]
        exact List.suffix_append _ _
    · have hd : up ctx d = [d] := by rw [up, if_neg habs]
      rw [hd, List.mem_singleton] at he
      rw [he]
  nodup d := by
    by_cases habs : d.isAbsolute = true
    · by_cases hin : ctx.scope d = .outside
      · rw [up, if_pos habs, hin]
        exact List.nodup_singleton d
      · rw [up_eq ctx habs hin]
        exact nodup_prefixes d (Nat.le_refl _)
    · rw [up, if_neg habs]
      exact List.nodup_singleton d

end Context

/-! ## The context of a snapshot -/

theorem namesOf_append : ∀ {rest more : List Component} {names : List Bytes},
    PathKey.namesOf (rest ++ more) = some names →
      ∃ first, PathKey.namesOf rest = some first ∧ first <+: names
  | [], more, names, _ => ⟨[], rfl, List.nil_prefix⟩
  | .normal n :: rest, more, names, h => by
    obtain ⟨tail, htail, rfl⟩ := Option.map_eq_some_iff.mp h
    obtain ⟨first, hfirst, hpre⟩ := namesOf_append htail
    refine ⟨n.bytes :: first, ?_, List.cons_prefix_cons.mpr ⟨rfl, hpre⟩⟩
    rw [PathKey.namesOf, hfirst]
    rfl
  | .rootDir :: _, _, _, h => by cases h
  | .curDir :: _, _, _, h => by cases h
  | .parentDir :: _, _, _, h => by cases h

/-- A directory above a keyed pathname has a key, and the pathname lies under it. -/
theorem new_above {p q : Path} {key : PathKey} (hnew : PathKey.new q = some key) (hpre : p <+: q)
    (habs : p.isAbsolute = true) : ∃ k, PathKey.new p = some k ∧ key.isAtOrUnder k = true := by
  obtain ⟨rest, rfl, hnames⟩ := new_eq_some hnew
  obtain ⟨more, hmore⟩ := hpre
  cases p with
  | nil => simp [Path.isAbsolute] at habs
  | cons c p =>
    obtain ⟨rfl, hrest⟩ := List.cons.inj hmore
    rw [← hrest] at hnames
    obtain ⟨first, hfirst, hsegments⟩ := namesOf_append hnames
    have hvalid : ∀ s ∈ first, isSegment s = true := fun s hs => key.valid s (hsegments.subset hs)
    refine ⟨⟨first, hvalid⟩, ?_, PathKey.isAtOrUnder_iff.mpr hsegments⟩
    unfold PathKey.new
    dsimp only
    rw [hfirst, Option.bind_some, PathKey.ofSegments, dif_pos hvalid]

section Snapshot

variable {snap : CompletenessSnapshot} {roots : List Path} {cells : List OmissionCell}

def rootsOf (built : Built snap roots cells) : RootSet := ⟨snap.configured, built.apart⟩

theorem scopeOf_rootsOf (built : Built snap roots cells) (path : Path) :
    scopeOf (some (rootsOf built)) path = snap.scope path := by
  unfold scopeOf CompletenessSnapshot.scope CompletenessSnapshot.owningRoot rootsOf
  rfl

/-- What is told of a directory is told of every directory above it. -/
theorem told_above {root key k : PathKey} (hkey : key.isAtOrUnder k = true) {r : OmissionReason}
    (h : 0 < told cells root key r) : ∃ r, 0 < told cells root k r := by
  have hcell : (∃ c ∈ cells, c.directory.isAtOrUnder key = true) ∨
      ∃ c ∈ cells, c.reason = .walkError ∧ c.directory = root := by
    unfold told at h
    by_cases hbelow : 0 < tally cells fun c => c.directory.isAtOrUnder key && decide (c.reason = r)
    · obtain ⟨c, hc, hboth⟩ := tally_pos.mp hbelow
      exact .inl ⟨c, hc, (Bool.and_eq_true_iff.mp hboth).1⟩
    · right
      split at h
      · have hroot : 0 < tally cells fun c => decide (c.reason = .walkError ∧ c.directory = root) := by
          omega
        obtain ⟨c, hc, hboth⟩ := tally_pos.mp hroot
        exact ⟨c, hc, of_decide_eq_true hboth⟩
      · omega
  obtain ⟨c, hc, hunder⟩ | ⟨c, hc, hreason, hdir⟩ := hcell
  · refine ⟨c.reason, Nat.add_pos_left (tally_pos.mpr ⟨c, hc, ?_⟩) _⟩
    rw [PathKey.isAtOrUnder_trans hunder hkey, decide_eq_true rfl]
    rfl
  · refine ⟨.walkError, ?_⟩
    unfold told
    by_cases hk : k = root
    · apply Nat.add_pos_left
      apply tally_pos.mpr
      refine ⟨c, hc, ?_⟩
      rw [hk, hdir, PathKey.isAtOrUnder_refl, decide_eq_true hreason]
      rfl
    · apply Nat.add_pos_right
      rw [if_pos ⟨hk, rfl⟩]
      exact tally_pos.mpr ⟨c, hc, decide_eq_true ⟨hreason, hdir⟩⟩

/-- **What a snapshot suppresses it suppresses up to the root.** -/
theorem suppressed_upward (built : Built snap roots cells) (dir : Path)
    (h : snap.disposition dir = .suppressed) : ∀ e ∈ accountableAncestors dir
      (scopeOf (some (rootsOf built)) dir), snap.disposition e = .suppressed := by
  intro e he
  by_cases ht : ∃ root key, Trusts snap dir root key
  · obtain ⟨root, key, t⟩ := ht
    -- a context for the scopes alone
    let ctx : SignatureContext := ⟨some (rootsOf built), fun _ => .untrusted, fun _ h => by cases h⟩
    obtain ⟨rest, hdir, -⟩ := new_eq_some t.keyed
    have habs : dir.isAbsolute = true := by
      rw [hdir]
      rfl
    obtain ⟨hpre, -, heabs, hescope⟩ := (mem_accountable ctx habs).mp he
    obtain ⟨k, hk, hunder⟩ := new_above t.keyed hpre heabs
    have hscope := scope_under ctx hpre hescope
    have hown : snap.owningRoot e = some root := by
      have hd : snap.scope dir = .root root := by
        unfold CompletenessSnapshot.scope
        rw [t.owned]
      have he' : snap.scope e = .root root := by
        rw [← scopeOf_rootsOf built, ← hd, ← scopeOf_rootsOf built]
        exact hscope.symm
      unfold CompletenessSnapshot.scope at he'
      split at he'
      · rename_i r hr
        rw [hr]
        exact congrArg some (DirScope.root.inj he')
      · cases he'
    obtain ⟨-, r, hr⟩ | ⟨htrusted, -⟩ := built.disposition_eq t
    · obtain ⟨r', hr'⟩ := told_above hunder hr
      obtain ⟨hs, -⟩ | ⟨-, hzero⟩ := built.disposition_eq ⟨hk, hown, t.trusted⟩
      · exact hs
      · exact absurd (hzero r') (Nat.pos_iff_ne_zero.mp hr')
    · rw [htrusted] at h
      cases h
  · have hunknown := (Built.unknown_of_not_trusts fun root key t => ht ⟨root, key, t⟩).2
    rw [hunknown] at h
    cases h

/-- A bounded snapshot as a context. -/
def contextOf (built : Built snap roots cells) : SignatureContext where
  bounds := some (rootsOf built)
  disposition := snap.disposition
  upward := suppressed_upward built

end Snapshot

end Signatures

end DedupCommando
