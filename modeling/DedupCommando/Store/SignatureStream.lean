import DedupCommando.Store.SignatureForest

/-!
# The streaming builder emits what the whole-subtree builder keeps

* `itemsOf` — the files as items of a walk over the forest of directories.
* `Tracks` — the frames hold the sums of the open nodes; `file_tracks` is one file.
* `mem_keptDirs` — the whole-subtree builder keeps the directories whose files are all hashed and
  that are not suppressed.
* `stream_meets_iff` — **the walk emits these, once each, with the figures of their files and after
  all below them**, if and only if the counters hold and no file lands on an open directory.
-/

set_option autoImplicit false

namespace DedupCommando

namespace Signatures

open CompletenessSnapshot (startsWithKey)

/-! ## Files as items of a walk -/

/-- A file lies under a directory. -/
def Under (d : Path) (f : ManifestFile) : Prop := d <+: f.path ∧ d ≠ f.path

instance (d : Path) (f : ManifestFile) : Decidable (Under d f) :=
  inferInstanceAs (Decidable (d <+: f.path ∧ d ≠ f.path))

/-- A manifest as the builders read it: distinct absolute pathnames, the files of each directory
together. -/
structure Listed (files : List ManifestFile) : Prop where
  distinct : (files.map ManifestFile.path).Nodup
  absolute : ∀ f ∈ files, f.path.isAbsolute = true
  together : ∀ d before f mid g after, files = before ++ f :: (mid ++ g :: after) →
    Under d f → Under d g → ∀ h ∈ mid, Under d h

/-- Bytes, files, and what is missing: files without a digest and suppressed directories. -/
abbrev Figure := ℕ × ℕ × ℕ

def fileFigure (f : ManifestFile) : Figure :=
  if f.hash.isSome = true then (f.size.toNat, 1, 0) else (0, 0, 1)

/-- The file has the pathname of a directory in which the file before it lies. -/
def LandsOn (prev : Option ManifestFile) (f : ManifestFile) : Prop := ∃ g ∈ prev, Under f.path g

instance (prev : Option ManifestFile) (f : ManifestFile) : Decidable (LandsOn prev f) :=
  inferInstanceAs (Decidable (∃ g ∈ prev, Under f.path g))

section Items

variable (ctx : SignatureContext)

/-- What a suppressed directory takes from those above it. -/
def weight (d : Path) : Figure := if ctx.disposition d = .suppressed then (0, 0, 1) else 0

/-- A file and the frames it counts for: those of the directories above it, and the frame of its
own pathname where that is open. -/
def itemOf (prev : Option ManifestFile) (f : ManifestFile) : Nesting.Item Path Figure where
  chain := if LandsOn prev f then up ctx f.path else accountableAncestors f.path (ctx.scope f.path)
  value := fileFigure f

def itemsOf : Option ManifestFile → List ManifestFile → List (Nesting.Item Path Figure)
  | _, [] => []
  | prev, f :: files => itemOf ctx prev f :: itemsOf (some f) files

theorem itemsOf_append : ∀ (prev : Option ManifestFile) (fs gs : List ManifestFile),
    itemsOf ctx prev (fs ++ gs) = itemsOf ctx prev fs ++ itemsOf ctx (fs.getLast?.or prev) gs
  | prev, [], gs => by simp [itemsOf]
  | prev, f :: fs, gs => by
    rw [List.cons_append, itemsOf, itemsOf_append, itemsOf, List.cons_append]
    congr 3
    cases fs with
    | nil => rfl
    | cons g fs => simp [List.getLast?_cons]

theorem itemsOf_split : ∀ {prev : Option ManifestFile} {files : List ManifestFile}
    {as bs : List (Nesting.Item Path Figure)} {x : Nesting.Item Path Figure},
    itemsOf ctx prev files = as ++ x :: bs →
      ∃ fs f gs, files = fs ++ f :: gs ∧ as = itemsOf ctx prev fs ∧
        x = itemOf ctx (fs.getLast?.or prev) f ∧ bs = itemsOf ctx (some f) gs
  | prev, [], as, bs, x, h => by simp [itemsOf] at h
  | prev, f :: files, [], bs, x, h => by
    obtain ⟨hx, hbs⟩ := List.cons.inj h
    exact ⟨[], f, files, rfl, rfl, hx.symm, hbs.symm⟩
  | prev, f :: files, a :: as, bs, x, h => by
    obtain ⟨ha, hrest⟩ := List.cons.inj h
    obtain ⟨fs, g, gs, rfl, rfl, rfl, rfl⟩ := itemsOf_split hrest
    refine ⟨f :: fs, g, gs, rfl, by rw [itemsOf, ha], ?_, rfl⟩
    cases fs with
    | nil => rfl
    | cons h fs => simp [List.getLast?_cons]

theorem mem_itemsOf {prev : Option ManifestFile} {files : List ManifestFile}
    {x : Nesting.Item Path Figure} (h : x ∈ itemsOf ctx prev files) :
    ∃ fs f gs, files = fs ++ f :: gs ∧ x = itemOf ctx (fs.getLast?.or prev) f := by
  obtain ⟨as, bs, hsplit⟩ := List.append_of_mem h
  obtain ⟨fs, f, gs, hfiles, -, hx, -⟩ := itemsOf_split ctx hsplit
  exact ⟨fs, f, gs, hfiles, hx⟩

/-- The directories a file counts for. -/
theorem mem_itemOf {prev : Option ManifestFile} {f : ManifestFile}
    (habs : f.path.isAbsolute = true) (hin : ctx.scope f.path ≠ .outside) {d : Path} :
    d ∈ (itemOf ctx prev f).chain ↔ (d.isAbsolute = true ∧ ctx.scope d ≠ .outside) ∧
      (Under d f ∨ (d = f.path ∧ LandsOn prev f)) := by
  unfold itemOf
  dsimp only
  by_cases hl : LandsOn prev f
  · rw [if_pos hl, mem_up ctx habs, mem_accountable ctx habs]
    constructor
    · rintro (rfl | ⟨hpre, hne, hd, hs⟩)
      · exact ⟨⟨habs, hin⟩, .inr ⟨rfl, hl⟩⟩
      · exact ⟨⟨hd, hs⟩, .inl ⟨hpre, hne⟩⟩
    · rintro ⟨⟨hd, hs⟩, ⟨hpre, hne⟩ | ⟨rfl, -⟩⟩
      · exact .inr ⟨hpre, hne, hd, hs⟩
      · exact .inl rfl
  · rw [if_neg hl, mem_accountable ctx habs]
    constructor
    · rintro ⟨hpre, hne, hd, hs⟩
      exact ⟨⟨hd, hs⟩, .inl ⟨hpre, hne⟩⟩
    · rintro ⟨⟨hd, hs⟩, ⟨hpre, hne⟩ | ⟨-, hl'⟩⟩
      · exact ⟨hpre, hne, hd, hs⟩
      · exact absurd hl' hl

/-- What is above a file is nothing, or the chain of its parent. -/
theorem isChain_accountable {p : Path} (habs : p.isAbsolute = true) :
    Nesting.IsChain (up ctx) (accountableAncestors p (ctx.scope p)) := by
  by_cases hin : ctx.scope p = .outside
  · left
    rw [hin]
    rfl
  · rw [accountable_eq ctx habs hin]
    obtain hlt | heq := Nat.lt_or_eq_of_le (lowest_le ctx habs)
    · right
      refine ⟨p.take (p.length - 1), ?_⟩
      have hlo : lowest (ctx.scope p) ≤ p.length - 1 := by omega
      obtain ⟨habs', hs⟩ := scope_take ctx habs hin hlo
      have hlen : (p.take (p.length - 1)).length = p.length - 1 := by
        rw [List.length_take]
        omega
      rw [up_eq ctx habs' (by rw [hs]; exact hin), hs, hlen, prefixes_take]
      congr 1
      omega
    · left
      rw [heq]
      simp [prefixes]

theorem isChain_itemOf {prev : Option ManifestFile} {f : ManifestFile}
    (habs : f.path.isAbsolute = true) : Nesting.IsChain (up ctx) (itemOf ctx prev f).chain := by
  unfold itemOf
  dsimp only
  split
  · exact .inr ⟨_, rfl⟩
  · exact isChain_accountable ctx habs

variable {files : List ManifestFile} (hlisted : Listed files)
  (hin : ∀ f ∈ files, ctx.scope f.path ≠ .outside)

include hlisted

theorem isChain_itemsOf : ∀ x ∈ itemsOf ctx none files, Nesting.IsChain (up ctx) x.chain := by
  intro x hx
  obtain ⟨fs, f, gs, hfiles, rfl⟩ := mem_itemsOf ctx hx
  exact isChain_itemOf ctx (hlisted.absolute f (by rw [hfiles]; simp))

include hin

/-- The frames a file counts for come together as the files do. -/
theorem together_itemsOf : Nesting.Together (itemsOf ctx none files) := by
  intro d before x mid y after hsplit hx hy z hz
  obtain ⟨fs, f, rest, hfiles, -, rfl, hrest⟩ := itemsOf_split ctx hsplit
  obtain ⟨gs, g, hs, rfl, rfl, rfl, -⟩ := itemsOf_split ctx hrest.symm
  obtain ⟨ms, h, ns, rfl, rfl⟩ := mem_itemsOf ctx hz
  have hf : f ∈ files := by simp [hfiles]
  have hg : g ∈ files := by simp [hfiles]
  have hh : h ∈ files := by simp [hfiles]
  rw [mem_itemOf ctx (hlisted.absolute f hf) (hin f hf)] at hx
  rw [mem_itemOf ctx (hlisted.absolute g hg) (hin g hg)] at hy
  rw [mem_itemOf ctx (hlisted.absolute h hh) (hin h hh)]
  obtain ⟨hd, hx⟩ := hx
  obtain ⟨-, hy⟩ := hy
  refine ⟨hd, .inl ?_⟩
  obtain hx | ⟨rfl, hl⟩ := hx
  · obtain hy | ⟨rfl, hl'⟩ := hy
    · exact hlisted.together d fs f (ms ++ h :: ns) g hs hfiles hx hy h (by simp)
    · -- `g` is at `d`, and the file before it lies under `d`
      obtain ⟨l, hlast, hl⟩ := hl'
      obtain rfl | ⟨ns, n, rfl⟩ := List.eq_nil_or_concat ns
      · obtain rfl : h = l := by simpa using hlast
        exact hl
      · obtain rfl : n = l := by simpa [List.getLast?_cons] using hlast
        exact hlisted.together g.path fs f (ms ++ h :: ns) n (g :: hs) (by rw [hfiles]; simp) hx hl h
          (by simp)
  · -- `f` is at `d` and lies among files under `d`
    obtain ⟨l, hlast, hl⟩ := hl
    rw [Option.or_none] at hlast
    obtain ⟨fs, rfl⟩ : ∃ fs', fs = fs' ++ [l] := by
      obtain ⟨fs', hfs'⟩ := List.getLast?_eq_some_iff.mp hlast
      exact ⟨fs', hfs'⟩
    obtain hy | ⟨heq, -⟩ := hy
    · have hself := hlisted.together f.path fs l (f :: (ms ++ h :: ns)) g hs (by rw [hfiles]; simp)
        hl hy f List.mem_cons_self
      exact absurd rfl hself.2
    · have hdistinct := hlisted.distinct
      rw [hfiles] at hdistinct
      simp only [List.map_append, List.map_cons, heq] at hdistinct
      rw [List.nodup_append] at hdistinct
      have hnot := (List.nodup_cons.mp hdistinct.2.1).1
      exact absurd (by simp) hnot

end Items

/-! ## Frames and sums -/

/-- A frame holds the sum of its directory. The counters of an incomplete one mean nothing. -/
structure Rep (f : Frame) (e : Path × Figure) : Prop where
  path : f.path = e.1
  incomplete : f.incomplete = true ↔ 0 < e.2.2.2
  size : e.2.2.2 = 0 → f.size = UInt64.ofNat e.2.1
  count : e.2.2.2 = 0 → f.count = UInt32.ofNat e.2.2.1

/-- What a closed frame leaves to its parent is what its node hands on. -/
def Leaves (child : Option (Option DirSignature)) (m : Figure) : Prop :=
  match child with
  | none => m = 0
  | some none => 0 < m.2.2
  | some (some s) => m.2.2 = 0 ∧ s.size = UInt64.ofNat m.1 ∧ s.fileCount = UInt32.ofNat m.2.1

/-- A signature without its digest. -/
def DirSignature.figures (s : DirSignature) : Path × UInt64 × UInt32 × DirTrust :=
  (s.path, s.size, s.fileCount, s.trust)

theorem Rep.absorb {f : Frame} {d : Path} {v m : Figure} {child : Option (Option DirSignature)}
    (h : Rep f (d, v)) (hc : Leaves child m) :
    Rep (child.elim f fun child => absorb child f) (d, v + m) := by
  obtain ⟨hpath, hinc, hsize, hcount⟩ := h
  dsimp only at hpath hinc hsize hcount
  cases child with
  | none =>
    obtain rfl : m = 0 := hc
    rw [add_zero]
    exact ⟨hpath, hinc, hsize, hcount⟩
  | some child =>
    cases child with
    | none =>
      have hm : 0 < m.2.2 := hc
      have hpos : 0 < (v + m).2.2 := Nat.add_pos_right _ hm
      refine ⟨hpath, ⟨fun _ => hpos, fun _ => rfl⟩, fun h0 => ?_, fun h0 => ?_⟩
      · exact absurd h0 (Nat.pos_iff_ne_zero.mp hpos)
      · exact absurd h0 (Nat.pos_iff_ne_zero.mp hpos)
    | some s =>
      obtain ⟨hm, hs, hk⟩ := hc
      have hsum : (v + m).2.2 = v.2.2 := by
        rw [Prod.snd_add, Prod.snd_add, hm, Nat.add_zero]
      refine ⟨hpath, ?_, fun h0 => ?_, fun h0 => ?_⟩
      · dsimp only
        rw [hsum]
        exact hinc
      · dsimp only at h0 ⊢
        rw [hsum] at h0
        change f.size + s.size = _
        rw [hsize h0, hs, ← UInt64.ofNat_add]
        rfl
      · dsimp only at h0 ⊢
        rw [hsum] at h0
        change f.count + s.fileCount = _
        rw [hcount h0, hk, ← UInt32.ofNat_add]
        rfl

theorem paths_of_rep {stack : List Frame} {nodes : List (Path × Figure)}
    (h : List.Forall₂ Rep stack nodes) : stack.map Frame.path = nodes.map Prod.fst := by
  induction h with
  | nil => rfl
  | cons hf _ ih => rw [List.map_cons, List.map_cons, hf.path, ih]

section Sim

variable (ctx : SignatureContext) (signatureOf : List (Bytes × Bytes) → Bytes)

/-- What closing a node emits. -/
def emission (e : Path × Figure) : Option (Path × UInt64 × UInt32 × DirTrust) :=
  match trustOf (ctx.disposition e.1) with
  | none => none
  | some trust =>
    if 0 < e.2.2.2 then none
    else some (e.1, UInt64.ofNat e.2.1, UInt32.ofNat e.2.2.1, trust)

theorem trustOf_eq_none {disposition : DirDisposition} :
    trustOf disposition = none ↔ disposition = .suppressed := by
  cases disposition <;> simp [trustOf]

theorem Rep.close {f : Frame} {e : Path × Figure} (h : Rep f e) :
    (close ctx signatureOf f).map DirSignature.figures = emission ctx e ∧
      Leaves (some (close ctx signatureOf f)) (e.2 + weight ctx e.1) := by
  obtain ⟨hpath, hinc, hsize, hcount⟩ := h
  unfold Signatures.close emission
  rw [hpath]
  cases htrust : trustOf (ctx.disposition e.1) with
  | none =>
    have hw : weight ctx e.1 = (0, 0, 1) := if_pos (trustOf_eq_none.mp htrust)
    refine ⟨rfl, ?_⟩
    rw [hw]
    exact Nat.succ_pos _
  | some trust =>
    have hw : weight ctx e.1 = 0 := by
      apply if_neg
      intro hs
      rw [trustOf_eq_none.mpr hs] at htrust
      cases htrust
    dsimp only
    rw [hw, add_zero]
    by_cases hmiss : 0 < e.2.2.2
    · rw [if_pos (hinc.mpr hmiss), if_pos hmiss]
      exact ⟨rfl, hmiss⟩
    · have hzero : e.2.2.2 = 0 := Nat.eq_zero_of_not_pos hmiss
      rw [if_neg (fun h => hmiss (hinc.mp h)), if_neg hmiss]
      refine ⟨?_, hzero, hsize hzero, hcount hzero⟩
      rw [Option.map_some, DirSignature.figures, hsize hzero, hcount hzero]

/-- The frames that are closed are the nodes that are closed. -/
theorem closeWhile_sim (gone : Path → Bool) (keep : List Path) :
    ∀ {child : Option (Option DirSignature)} {m : Figure} {stack : List Frame}
      {nodes : List (Path × Figure)}, List.Forall₂ Rep stack nodes → Leaves child m →
      (∀ d ∈ nodes.map Prod.fst, gone d = true ↔ d ∉ keep) →
      List.Forall₂ Rep (closeWhile ctx signatureOf gone child stack).1
          (Nesting.unwind (weight ctx) keep m nodes).1 ∧
        (closeWhile ctx signatureOf gone child stack).2.map DirSignature.figures =
          (Nesting.unwind (weight ctx) keep m nodes).2.filterMap (emission ctx) := by
  intro child m stack nodes hframes
  induction hframes generalizing child m with
  | nil => exact fun _ _ => ⟨List.Forall₂.nil, rfl⟩
  | @cons f e stack nodes hf hrest ih =>
    intro hc hgone
    obtain ⟨d, v⟩ := e
    have htop := hf.absorb hc
    have hd := hgone d (by simp)
    unfold closeWhile Nesting.unwind
    dsimp only
    rw [htop.path]
    by_cases hkeep : d ∈ keep
    · rw [if_neg (fun h => hd.mp h hkeep), if_pos hkeep]
      exact ⟨.cons htop hrest, rfl⟩
    · obtain ⟨hemit, hleaves⟩ := htop.close ctx signatureOf
      obtain ⟨hstack, hout⟩ := ih hleaves
        fun d hd => hgone d (by simpa using .inr (by simpa using hd))
      rw [if_pos (hd.mpr hkeep), if_neg hkeep]
      refine ⟨hstack, ?_⟩
      rw [List.map_append, hout, List.filterMap_cons, ← hemit]
      cases Signatures.close ctx signatureOf
          (child.elim f fun child => Signatures.absorb child f) with
      | none => rfl
      | some s => rfl

theorem openFrames_sim : ∀ (dirs : List Path) {w : Walk} {nodes : List (Path × Figure)},
    List.Forall₂ Rep w.stack nodes →
      List.Forall₂ Rep (w.openFrames dirs).stack (Nesting.openAll dirs nodes) ∧
        (w.openFrames dirs).bound = w.bound ∧ (w.openFrames dirs).emitted = w.emitted ∧
        ∀ d ∈ (w.openFrames dirs).opened, d ∈ w.opened ∨ d ∈ dirs
  | [], w, nodes, h => ⟨h, rfl, rfl, fun d hd => .inl hd⟩
  | dir :: dirs, w, nodes, h => by
    have hany : w.stack.any (fun frame => decide (frame.path = dir)) = true ↔
        dir ∈ nodes.map Prod.fst := by
      rw [← paths_of_rep h]
      simp
    unfold Walk.openFrames Nesting.openAll
    by_cases hin : dir ∈ nodes.map Prod.fst
    · rw [if_pos (hany.mpr hin), if_pos hin]
      obtain ⟨h1, h2, h3, h4⟩ := openFrames_sim dirs h
      exact ⟨h1, h2, h3, fun d hd => (h4 d hd).imp_right (List.mem_cons_of_mem _)⟩
    · rw [if_neg (fun h => hin (hany.mp h)), if_neg hin]
      have hnew : Rep (Frame.new dir) (dir, (0 : Figure)) := by
        refine ⟨rfl, ?_, fun _ => rfl, fun _ => rfl⟩
        simp [Frame.new]
      obtain ⟨h1, h2, h3, h4⟩ := openFrames_sim dirs
        (w := { w with stack := Frame.new dir :: w.stack, opened := w.opened ++ [dir] })
        (.cons hnew h)
      refine ⟨h1, h2, h3, fun d hd => ?_⟩
      obtain hd | hd := h4 d hd
      · obtain hd | hd := List.mem_append.mp hd
        · exact .inl hd
        · exact .inr (by rw [List.mem_singleton.mp hd]; exact List.mem_cons_self)
      · exact .inr (List.mem_cons_of_mem _ hd)

theorem chargeTop_sim {file : ManifestFile} {stack : List Frame} {nodes : List (Path × Figure)}
    (h : List.Forall₂ Rep stack nodes) :
    List.Forall₂ Rep (chargeTop file stack) (Nesting.charge (fileFigure file) nodes) := by
  cases h with
  | nil => exact .nil
  | @cons f e stack nodes hf hrest =>
    obtain ⟨d, v⟩ := e
    obtain ⟨hpath, hinc, hsize, hcount⟩ := hf
    dsimp only at hpath hinc hsize hcount
    unfold chargeTop Nesting.charge fileFigure
    cases hhash : file.hash with
    | none =>
      have hpos : 0 < (v + ((0, 0, 1) : Figure)).2.2 := Nat.succ_pos _
      refine .cons ⟨hpath, ⟨fun _ => hpos, fun _ => rfl⟩, fun h0 => ?_, fun h0 => ?_⟩ hrest
      · exact absurd h0 (Nat.pos_iff_ne_zero.mp hpos)
      · exact absurd h0 (Nat.pos_iff_ne_zero.mp hpos)
    | some hash =>
      refine .cons ⟨hpath, hinc, fun h0 => ?_, fun h0 => ?_⟩ hrest
      · change f.size + file.size = UInt64.ofNat (v.1 + file.size.toNat)
        rw [UInt64.ofNat_add, hsize h0, UInt64.ofNat_toNat]
      · change f.count + 1 = UInt32.ofNat (v.2.1 + 1)
        rw [UInt32.ofNat_add, hcount h0]
        rfl

/-- The state of the walk over `done`, with `todo` to come, and the sums behind it. -/
structure Tracks (done todo : List ManifestFile) (w : Walk)
    (s : List (Path × Figure) × List (Path × Figure)) : Prop where
  good : Nesting.Good (up ctx) (weight ctx) (itemsOf ctx none done)
    (itemsOf ctx done.getLast? todo) s
  frames : List.Forall₂ Rep w.stack s.1
  bound : w.bound = done.getLast?.map fun f => boundOf (ctx.scope f.path)
  emitted : w.emitted.map DirSignature.figures = s.2.filterMap (emission ctx)
  opened : ∀ d ∈ w.opened, ctx.scope d ≠ .outside

/-- The open frames are those of the file before. -/
theorem Tracks.open_nodes {done todo : List ManifestFile} {w : Walk}
    {s : List (Path × Figure) × List (Path × Figure)} (h : Tracks ctx done todo w s) {d : Path}
    (hd : d ∈ s.1.map Prod.fst) :
    ∃ prev l, done.getLast? = some l ∧ d ∈ (itemOf ctx prev l).chain := by
  rw [h.good.chain] at hd
  obtain rfl | ⟨done, l, rfl⟩ := List.eq_nil_or_concat done
  · exact absurd hd List.not_mem_nil
  · have hitems : itemsOf ctx none (done.concat l) =
        itemsOf ctx none done ++ [itemOf ctx done.getLast? l] := by
      rw [List.concat_eq_append, itemsOf_append, Option.or_none]
      rfl
    rw [hitems, List.getLast?_concat] at hd
    exact ⟨_, l, by simp, hd⟩

section Step

variable {done todo : List ManifestFile} {file : ManifestFile}
  (hlisted : Listed (done ++ file :: todo))
  (hin : ∀ f ∈ done ++ file :: todo, ctx.scope f.path ≠ .outside) {w : Walk}
  {s : List (Path × Figure) × List (Path × Figure)}

include hlisted hin

/-- A frame that is open is left by the next file exactly when that file does not count for it. -/
theorem leaves_iff (h : Tracks ctx done (file :: todo) w s) :
    ∀ d ∈ s.1.map Prod.fst, (!file.path.startsWith d) = true ↔
      d ∉ (itemOf ctx done.getLast? file).chain := by
  intro d hd
  obtain ⟨prev, l, hlast, hl⟩ := h.open_nodes ctx hd
  have hl_mem : l ∈ done := List.mem_of_getLast? hlast
  have hf : file ∈ done ++ file :: todo := by simp
  have hl' : l ∈ done ++ file :: todo := List.mem_append_left _ hl_mem
  rw [mem_itemOf ctx (hlisted.absolute l hl') (hin l hl')] at hl
  rw [mem_itemOf ctx (hlisted.absolute file hf) (hin file hf), Bool.not_eq_true', ← Bool.not_eq_true,
    not_iff_not, Path.startsWith, List.isPrefixOf_iff_prefix]
  obtain ⟨hscope, hl⟩ := hl
  constructor
  · intro hpre
    refine ⟨hscope, ?_⟩
    by_cases heq : d = file.path
    · right
      refine ⟨heq, l, hlast, ?_⟩
      obtain hl | ⟨hself, -⟩ := hl
      · exact heq ▸ hl
      · -- two files would have one pathname
        have hdistinct := hlisted.distinct
        rw [List.map_append, List.nodup_append] at hdistinct
        exact absurd (hself.symm.trans heq)
          (hdistinct.2.2 l.path (List.mem_map_of_mem hl_mem) file.path (by simp))
    · exact .inl ⟨hpre, heq⟩
  · rintro ⟨-, ⟨hpre, -⟩ | ⟨rfl, -⟩⟩
    · exact hpre
    · exact List.prefix_refl _

/-- Behind another root nothing that is open counts. -/
theorem none_kept (h : Tracks ctx done (file :: todo) w s)
    (hbound : w.bound.any (fun b => decide (b ≠ boundOf (ctx.scope file.path))) = true) :
    ∀ d ∈ s.1.map Prod.fst, d ∉ (itemOf ctx done.getLast? file).chain := by
  intro d hd hkeep
  obtain ⟨prev, l, hlast, hl⟩ := h.open_nodes ctx hd
  have hf : file ∈ done ++ file :: todo := by simp
  have hl' : l ∈ done ++ file :: todo := List.mem_append_left _ (List.mem_of_getLast? hlast)
  rw [mem_itemOf ctx (hlisted.absolute l hl') (hin l hl')] at hl
  rw [mem_itemOf ctx (hlisted.absolute file hf) (hin file hf)] at hkeep
  obtain ⟨⟨-, hs⟩, hl⟩ := hl
  have hpre : d <+: l.path := by
    obtain hl | ⟨rfl, -⟩ := hl
    · exact hl.1
    · exact List.prefix_refl _
  have hpre' : d <+: file.path := by
    obtain hk | ⟨rfl, -⟩ := hkeep.2
    · exact hk.1
    · exact List.prefix_refl _
  rw [h.bound, hlast] at hbound
  have hne : boundOf (ctx.scope l.path) ≠ boundOf (ctx.scope file.path) := by simpa using hbound
  exact hne (by rw [scope_under ctx hpre hs, scope_under ctx hpre' hs])

/-- Both closing loops together close what the file does not count for. -/
theorem closed_sim (h : Tracks ctx done (file :: todo) w s) :
    let w₁ := if w.bound.any (fun b => decide (b ≠ boundOf (ctx.scope file.path))) = true then
        w.closeWhile ctx signatureOf fun _ => true
      else w
    let w₂ := ({ w₁ with bound := some (boundOf (ctx.scope file.path)) } : Walk).closeWhile ctx
      signatureOf fun dir => !file.path.startsWith dir
    let r := Nesting.unwind (weight ctx) (itemOf ctx done.getLast? file).chain 0 s.1
    List.Forall₂ Rep w₂.stack r.1 ∧ w₂.bound = some (boundOf (ctx.scope file.path)) ∧
      w₂.emitted.map DirSignature.figures = (s.2 ++ r.2).filterMap (emission ctx) ∧
      w₂.opened = w.opened := by
  intro w₁ w₂ r
  by_cases hbound : w.bound.any (fun b => decide (b ≠ boundOf (ctx.scope file.path))) = true
  · have hw₁ : w₁ = w.closeWhile ctx signatureOf fun _ => true := if_pos hbound
    have hnone := none_kept ctx hlisted hin h hbound
    obtain ⟨hstack, hout⟩ := closeWhile_sim ctx signatureOf (fun _ => true)
      (itemOf ctx done.getLast? file).chain h.frames (show Leaves none 0 from rfl)
      fun d hd => by simpa using hnone d hd
    -- everything is closed, so the second loop finds nothing
    have hempty : r.1 = [] := Nesting.unwind_all hnone
    have hempty' : w₁.stack = [] := by
      have hlen := hstack.length_eq
      rw [hw₁]
      apply List.length_eq_zero_iff.mp
      exact hlen.trans (by rw [hempty]; rfl)
    have hw₂ : w₂ = { w₁ with bound := some (boundOf (ctx.scope file.path)) } := by
      change Walk.closeWhile ctx signatureOf _ _ = _
      unfold Walk.closeWhile
      rw [hempty']
      simp [closeWhile]
    rw [hw₂]
    dsimp only
    refine ⟨?_, rfl, ?_, ?_⟩
    · rw [hempty', hempty]
      exact .nil
    · rw [hw₁, List.filterMap_append, ← h.emitted, ← hout, ← List.map_append]
      rfl
    · rw [hw₁]
      rfl
  · have hw₁ : w₁ = w := if_neg hbound
    obtain ⟨hstack, hout⟩ := closeWhile_sim ctx signatureOf _ _ h.frames (show Leaves none 0 from rfl)
      (leaves_iff ctx hlisted hin h)
    refine ⟨?_, rfl, ?_, ?_⟩
    · change List.Forall₂ Rep (closeWhile ctx signatureOf _ none w₁.stack).1 _
      rw [hw₁]
      exact hstack
    · rw [List.filterMap_append, ← h.emitted, ← hout, ← List.map_append]
      change (w₁.emitted ++ (closeWhile ctx signatureOf _ none w₁.stack).2).map _ = _
      rw [hw₁]
    · change w₁.opened = _
      rw [hw₁]

/-- Opening what is above the file opens its chain: its own pathname is open where it counts. -/
theorem openAll_chain (h : Tracks ctx done (file :: todo) w s) :
    Nesting.openAll (itemOf ctx done.getLast? file).chain.reverse
        (Nesting.unwind (weight ctx) (itemOf ctx done.getLast? file).chain 0 s.1).1 =
      Nesting.openAll (accountableAncestors file.path (ctx.scope file.path)).reverse
        (Nesting.unwind (weight ctx) (itemOf ctx done.getLast? file).chain 0 s.1).1 := by
  have hf : file ∈ done ++ file :: todo := by simp
  have habs := hlisted.absolute file hf
  by_cases hl : LandsOn done.getLast? file
  · have hchain : (itemOf ctx done.getLast? file).chain =
        file.path :: accountableAncestors file.path (ctx.scope file.path) := by
      unfold itemOf
      dsimp only
      rw [if_pos hl, up, if_pos habs]
    have hopen : file.path ∈ s.1.map Prod.fst := by
      obtain ⟨l, hlast, hl⟩ := hl
      obtain ⟨done', rfl⟩ := List.getLast?_eq_some_iff.mp hlast
      have hl' : l ∈ done' ++ [l] ++ file :: todo := by simp
      rw [h.good.chain, itemsOf_append]
      have hlastItem : (itemsOf ctx none done' ++ itemsOf ctx (done'.getLast?.or none) [l]).getLast? =
          some (itemOf ctx (done'.getLast?.or none) l) := by simp [itemsOf]
      rw [hlastItem]
      change file.path ∈ (itemOf ctx (done'.getLast?.or none) l).chain
      rw [mem_itemOf ctx (hlisted.absolute l hl') (hin l hl')]
      exact ⟨⟨habs, hin file hf⟩, .inl hl⟩
    have hkept : file.path ∈ (Nesting.unwind (weight ctx)
        (itemOf ctx done.getLast? file).chain 0 s.1).1.map Prod.fst := by
      exact Nesting.mem_unwind hopen (by rw [hchain]; exact List.mem_cons_self)
    have hreverse : (itemOf ctx done.getLast? file).chain.reverse =
        (accountableAncestors file.path (ctx.scope file.path)).reverse ++ [file.path] := by
      rw [hchain, List.reverse_cons]
    rw [hreverse, Nesting.openAll_append]
    apply Nesting.openAll_open
    intro d hd
    rw [List.mem_singleton] at hd
    rw [hd]
    exact Nesting.mem_openAll hkept
  · have hchain : (itemOf ctx done.getLast? file).chain =
        accountableAncestors file.path (ctx.scope file.path) := if_neg hl
    rw [hchain]

/-- **One file**: the walk goes on, and its frames are the nodes. -/
theorem file_tracks (h : Tracks ctx done (file :: todo) w s) :
    ∃ w', w.file ctx signatureOf file = .ok w' ∧
      Tracks ctx (done ++ [file]) todo w'
        (Nesting.step (weight ctx) s (itemOf ctx done.getLast? file)) := by
  have hf : file ∈ done ++ file :: todo := by simp
  have hscope := hin file hf
  obtain ⟨hstack, hbound, hemitted, hopened⟩ := closed_sim ctx signatureOf hlisted hin h
  have hrun : ∃ w₂ : Walk, w.file ctx signatureOf file =
      .ok { w₂.openFrames (accountableAncestors file.path (ctx.scope file.path)).reverse with
        stack := chargeTop file (w₂.openFrames
          (accountableAncestors file.path (ctx.scope file.path)).reverse).stack } ∧
      List.Forall₂ Rep w₂.stack
        (Nesting.unwind (weight ctx) (itemOf ctx done.getLast? file).chain 0 s.1).1 ∧
      w₂.bound = some (boundOf (ctx.scope file.path)) ∧
      w₂.emitted.map DirSignature.figures = (s.2 ++ (Nesting.unwind (weight ctx)
        (itemOf ctx done.getLast? file).chain 0 s.1).2).filterMap (emission ctx) ∧
      w₂.opened = w.opened := by
    refine ⟨_, ?_, hstack, hbound, hemitted, hopened⟩
    unfold Walk.file
    split
    · rename_i hout
      exact absurd hout hscope
    · rfl
  obtain ⟨w₂, hfile, hstack, hbound, hemitted, hopened⟩ := hrun
  obtain ⟨hframes, hb, he, ho⟩ := openFrames_sim
    (accountableAncestors file.path (ctx.scope file.path)).reverse hstack
  have hitems : itemsOf ctx none (done ++ file :: todo) = itemsOf ctx none done ++
      itemOf ctx done.getLast? file :: itemsOf ctx (some file) todo := by
    rw [itemsOf_append, Option.or_none]
    rfl
  have hchains := isChain_itemsOf ctx hlisted
  have htog := together_itemsOf ctx hlisted hin
  rw [hitems] at hchains htog
  have hgood := Nesting.step_good (forest ctx) hchains htog h.good
  refine ⟨_, hfile, ?_, ?_, ?_, ?_, ?_⟩
  · rw [itemsOf_append, Option.or_none]
    rw [List.getLast?_concat]
    exact hgood
  · unfold Nesting.step
    dsimp only
    rw [openAll_chain ctx hlisted hin h]
    exact chargeTop_sim hframes
  · dsimp only
    rw [hb, hbound, List.getLast?_concat]
    rfl
  · dsimp only
    rw [he]
    exact hemitted
  · intro d hd
    dsimp only at hd
    obtain hd | hd := ho d hd
    · exact h.opened d (hopened ▸ hd)
    · rw [List.mem_reverse, mem_accountable ctx (hlisted.absolute file hf)] at hd
      exact hd.2.2.2

end Step

/-- **The whole walk** emits what the nodes emit when they are closed. -/
theorem stream_tracks : ∀ {todo done : List ManifestFile} {w : Walk}
    {s : List (Path × Figure) × List (Path × Figure)}, Listed (done ++ todo) →
      (∀ f ∈ done ++ todo, ctx.scope f.path ≠ .outside) → Tracks ctx done todo w s →
      (stream ctx signatureOf w todo).2.emitted.map DirSignature.figures =
        (((itemsOf ctx done.getLast? todo).foldl (Nesting.step (weight ctx)) s).2 ++
          (Nesting.unwind (weight ctx) [] 0
            ((itemsOf ctx done.getLast? todo).foldl (Nesting.step (weight ctx)) s).1).2).filterMap
          (emission ctx) ∧
      ∀ d ∈ (stream ctx signatureOf w todo).2.opened, ctx.scope d ≠ .outside
  | [], done, w, s, _, _, h => by
    obtain ⟨-, hout⟩ := closeWhile_sim ctx signatureOf (fun _ => true) [] h.frames
      (show Leaves none 0 from rfl) fun d _ => by simp
    refine ⟨?_, h.opened⟩
    change (w.emitted ++ (closeWhile ctx signatureOf _ none w.stack).2).map _ = _
    rw [List.map_append, hout, h.emitted, ← List.filterMap_append]
    rfl
  | file :: todo, done, w, s, hlisted, hin, h => by
    obtain ⟨w', hfile, htracks⟩ := file_tracks ctx signatureOf hlisted hin h
    have hassoc : done ++ file :: todo = done ++ [file] ++ todo := by simp
    rw [hassoc] at hlisted hin
    have hrest := stream_tracks hlisted hin htracks
    rw [List.getLast?_concat] at hrest
    unfold stream
    rw [hfile]
    exact hrest

/-- Only a file outside every root stops either builder. -/
theorem stream_result : ∀ (files : List ManifestFile) (w : Walk) (m : OrdMap Path DirAccum),
    (stream ctx signatureOf w files).1 = (byDir ctx m files).map fun _ => ()
  | [], w, m => rfl
  | file :: files, w, m => by
    unfold stream byDir Walk.file
    cases hs : ctx.scope file.path with
    | outside => rfl
    | unbounded => exact stream_result files _ _
    | root r => exact stream_result files _ _

end Sim

/-! ## The whole-subtree builder -/

section Whole

variable (ctx : SignatureContext)

theorem stripPrefix_under {p d : Path} (h : d <+: p) :
    p.stripPrefix d = some (p.drop d.length) := by
  unfold Path.stripPrefix Path.startsWith
  rw [if_pos (List.isPrefixOf_iff_prefix.mpr h)]

theorem accountDir_get? (file : ManifestFile) (m : OrdMap Path DirAccum) {dir : Path}
    (hpre : dir <+: file.path) (d : Path) : ((accountDir file m dir).get? d).isSome =
        (decide (d = dir) || (m.get? d).isSome) ∧
      ((∃ a ∈ (accountDir file m dir).get? d, a.incomplete = true) ↔
        (d = dir ∧ file.hash = none) ∨ ∃ a ∈ m.get? d, a.incomplete = true) := by
  unfold accountDir
  rw [stripPrefix_under hpre]
  dsimp only
  rw [OrdMap.get?_insert]
  by_cases heq : d = dir
  · subst heq
    simp only [if_true, Option.isSome_some, decide_true, Bool.true_or, Option.mem_some_iff,
      exists_eq_left', true_and]
    unfold DirAccum.add
    cases hhash : file.hash with
    | none => simp
    | some hash =>
      cases hget : m.get? d with
      | none => simp [DirAccum.default]
      | some a => simp
  · simp [heq]

theorem foldl_accountDir (file : ManifestFile) : ∀ {dirs : List Path} (m : OrdMap Path DirAccum),
    (∀ dir ∈ dirs, dir <+: file.path) → ∀ d, (((dirs.foldl (accountDir file) m).get? d).isSome =
        (decide (d ∈ dirs) || (m.get? d).isSome)) ∧
      ((∃ a ∈ (dirs.foldl (accountDir file) m).get? d, a.incomplete = true) ↔
        (d ∈ dirs ∧ file.hash = none) ∨ ∃ a ∈ m.get? d, a.incomplete = true)
  | [], m, _, d => by simp
  | dir :: dirs, m, h, d => by
    obtain ⟨hsome, hmiss⟩ := accountDir_get? file m (h dir List.mem_cons_self) d
    obtain ⟨hsome', hmiss'⟩ := foldl_accountDir file (accountDir file m dir)
      (fun e he => h e (List.mem_cons_of_mem _ he)) d
    rw [List.foldl_cons]
    refine ⟨?_, ?_⟩
    · rw [hsome', hsome]
      by_cases heq : d = dir <;> simp [heq]
    · rw [hmiss', hmiss, List.mem_cons]
      tauto

/-- The directories above a file that a build accounts for. -/
def above (f : ManifestFile) : List Path := accountableAncestors f.path (ctx.scope f.path)

theorem byDir_spec : ∀ {files : List ManifestFile} {m m' : OrdMap Path DirAccum},
    (∀ f ∈ files, f.path.isAbsolute = true) → byDir ctx m files = .ok m' → ∀ d,
      ((m'.get? d).isSome = true ↔ (∃ f ∈ files, d ∈ above ctx f) ∨ (m.get? d).isSome = true) ∧
      ((∃ a ∈ m'.get? d, a.incomplete = true) ↔
        (∃ f ∈ files, d ∈ above ctx f ∧ f.hash = none) ∨ ∃ a ∈ m.get? d, a.incomplete = true)
  | [], m, m', _, h, d => by
    cases h
    simp
  | file :: files, m, m', habs, h, d => by
    have hrest : byDir ctx ((above ctx file).foldl (accountDir file) m) files = .ok m' := by
      unfold byDir at h
      unfold above
      cases hs : ctx.scope file.path with
      | outside =>
        rw [hs] at h
        cases h
      | unbounded =>
        rw [hs] at h
        exact h
      | root r =>
        rw [hs] at h
        exact h
    have hpre : ∀ dir ∈ above ctx file, dir <+: file.path := fun dir hd =>
      ((mem_accountable ctx (habs file List.mem_cons_self)).mp hd).1
    obtain ⟨hsome, hmiss⟩ := foldl_accountDir file m hpre d
    obtain ⟨hsome', hmiss'⟩ := byDir_spec (fun f hf => habs f (List.mem_cons_of_mem _ hf)) hrest d
    rw [hsome', hsome, hmiss', hmiss, Bool.or_eq_true, decide_eq_true_eq, ← or_assoc, ← or_assoc]
    simp only [List.mem_cons, exists_eq_or_imp]
    exact ⟨or_congr_left or_comm, or_congr_left or_comm⟩

/-- A directory with files in scope under it, every one hashed, that is not suppressed. -/
structure Keeps (files : List ManifestFile) (d : Path) : Prop where
  some_file : ∃ f ∈ files, d ∈ above ctx f
  hashed : ∀ f ∈ files, Under d f → f.hash ≠ none
  allowed : ctx.disposition d ≠ .suppressed

/-- **What the whole-subtree builder keeps.** -/
theorem mem_keptDirs {files : List ManifestFile} {whole : List KeptDir}
    (habs : ∀ f ∈ files, f.path.isAbsolute = true) (h : keptDirs ctx files = .ok whole) (d : Path) :
    d ∈ whole.map KeptDir.path ↔ Keeps ctx files d := by
  unfold keptDirs at h
  split at h
  · cases h
  rename_i m hm
  cases h
  obtain ⟨hsome, hmiss⟩ := byDir_spec ctx habs hm d
  have hunder : ∀ f ∈ files, d ∈ above ctx f → Under d f := by
    intro f hf hd
    obtain ⟨hpre, hne, -, -⟩ := (mem_accountable ctx (habs f hf)).mp hd
    exact ⟨hpre, hne⟩
  constructor
  · intro hd
    obtain ⟨k, hk, rfl⟩ := List.mem_map.mp hd
    obtain ⟨⟨dir, acc⟩, he, hkeep⟩ := List.mem_filterMap.mp hk
    unfold keepDir at hkeep
    dsimp only at hkeep
    split at hkeep
    · cases hkeep
    · rename_i hcomplete
      obtain ⟨trust, htrust, rfl⟩ := Option.map_eq_some_iff.mp hkeep
      dsimp only at hsome hmiss hunder ⊢
      have hget := OrdMap.mem_entries.mp he
      rw [hget] at hsome hmiss
      obtain hf | hempty := hsome.mp rfl
      · refine ⟨hf, ?_, ?_⟩
        · intro f hf hu hnone
          obtain ⟨g, hg, hdg⟩ := ‹∃ f ∈ files, dir ∈ above ctx f›
          obtain ⟨hpre, hne, hdabs, hds⟩ := (mem_accountable ctx (habs g hg)).mp hdg
          have hdf : dir ∈ above ctx f :=
            (mem_accountable ctx (habs f hf)).mpr ⟨hu.1, hu.2, hdabs, hds⟩
          obtain ⟨a, ha, hinc⟩ := hmiss.mpr (.inl ⟨f, hf, hdf, hnone⟩)
          cases ha
          exact hcomplete hinc
        · intro hs
          rw [hs] at htrust
          cases htrust
      · cases hempty
  · rintro ⟨hfile, hhashed, hallowed⟩
    have hpresent := hsome.mpr (.inl hfile)
    obtain ⟨acc, hget⟩ := Option.isSome_iff_exists.mp hpresent
    have hcomplete : acc.incomplete = false := by
      rw [Bool.eq_false_iff]
      intro hinc
      obtain ⟨f, hf, hd, hnone⟩ | ⟨a, ha, -⟩ := hmiss.mp ⟨acc, hget, hinc⟩
      · exact hhashed f hf (hunder f hf hd) hnone
      · cases ha
    obtain ⟨trust, htrust⟩ : ∃ trust, trustOf (ctx.disposition d) = some trust := by
      cases ht : trustOf (ctx.disposition d) with
      | none => exact absurd (trustOf_eq_none.mp ht) hallowed
      | some trust => exact ⟨trust, rfl⟩
    refine List.mem_map.mpr ⟨⟨d, acc.entries, acc.total, acc.count, trust⟩, ?_, rfl⟩
    refine List.mem_filterMap.mpr ⟨(d, acc), OrdMap.mem_entries.mpr hget, ?_⟩
    unfold keepDir
    dsimp only
    rw [hcomplete, htrust]
    rfl

end Whole

/-! ## Sums over the files under a directory -/

def bytesUnder (files : List ManifestFile) (d : Path) : ℕ :=
  ((files.filter fun f => decide (Under d f)).map fun f => f.size.toNat).sum

def countUnder (files : List ManifestFile) (d : Path) : ℕ :=
  (files.filter fun f => decide (Under d f)).length

/-- The files at the pathname of `d` that come right behind a file under it. -/
def landing (d : Path) : Option ManifestFile → List ManifestFile → List ManifestFile
  | _, [] => []
  | prev, f :: files =>
    if f.path = d ∧ LandsOn prev f then f :: landing d (some f) files
    else landing d (some f) files

theorem landing_sublist (d : Path) : ∀ (prev : Option ManifestFile) (files : List ManifestFile),
    (landing d prev files).Sublist files
  | _, [] => List.Sublist.refl _
  | prev, f :: files => by
    unfold landing
    split
    · exact (landing_sublist d _ files).cons_cons f
    · exact (landing_sublist d _ files).cons f

theorem mem_landing {d : Path} : ∀ {prev : Option ManifestFile} {files : List ManifestFile}
    {f : ManifestFile}, f ∈ landing d prev files ↔
      f.path = d ∧ ∃ before after, files = before ++ f :: after ∧
        LandsOn (before.getLast?.or prev) f
  | prev, [], f => by simp [landing]
  | prev, g :: files, f => by
    have htail : f ∈ landing d (some g) files ↔ f.path = d ∧ ∃ before after,
        g :: files = g :: before ++ f :: after ∧ LandsOn ((g :: before).getLast?.or prev) f := by
      rw [mem_landing]
      apply and_congr_right
      intro _
      constructor
      · rintro ⟨before, after, rfl, hl⟩
        refine ⟨before, after, rfl, ?_⟩
        cases before with
        | nil => exact hl
        | cons x before => simpa [List.getLast?_cons] using hl
      · rintro ⟨before, after, heq, hl⟩
        refine ⟨before, after, List.cons.inj heq |>.2, ?_⟩
        cases before with
        | nil => exact hl
        | cons x before => simpa [List.getLast?_cons] using hl
    have hsplit : (f ∈ landing d prev (g :: files)) ↔
        (f = g ∧ g.path = d ∧ LandsOn prev g) ∨ f ∈ landing d (some g) files := by
      rw [landing]
      split
      · rename_i hg
        rw [List.mem_cons]
        simp [hg]
      · rename_i hg
        simp [hg]
    rw [hsplit, htail]
    constructor
    · rintro (⟨rfl, hd, hl⟩ | ⟨hd, before, after, heq, hl⟩)
      · exact ⟨hd, [], files, rfl, hl⟩
      · exact ⟨hd, g :: before, after, heq, hl⟩
    · rintro ⟨hd, before, after, heq, hl⟩
      cases before with
      | nil =>
        obtain ⟨rfl, rfl⟩ := List.cons.inj heq
        exact .inl ⟨rfl, hd, hl⟩
      | cons x before =>
        obtain ⟨rfl, rest⟩ := List.cons.inj heq
        exact .inr ⟨hd, before, after, heq, hl⟩

/-- One file at most has a pathname. -/
theorem landing_length {d : Path} {files : List ManifestFile}
    (hdist : (files.map ManifestFile.path).Nodup) : (landing d none files).length ≤ 1 := by
  have hnodup := hdist.sublist ((landing_sublist d none files).map ManifestFile.path)
  have hall : ∀ p ∈ (landing d none files).map ManifestFile.path, p = d := by
    intro p hp
    obtain ⟨f, hf, rfl⟩ := List.mem_map.mp hp
    exact (mem_landing.mp hf).1
  have hsub : (landing d none files).map ManifestFile.path ⊆ [d] := by
    intro p hp
    rw [hall p hp]
    exact List.mem_singleton_self d
  have hlen := (hnodup.subperm hsub).length_le
  simpa using hlen

section Totals

variable (ctx : SignatureContext)

/-- What the items of a directory are worth: the files under it, and those that land on it. -/
theorem total_itemsOf {d : Path} (hd : d.isAbsolute = true ∧ ctx.scope d ≠ .outside) :
    ∀ {prev : Option ManifestFile} {files : List ManifestFile},
      (∀ f ∈ files, f.path.isAbsolute = true ∧ ctx.scope f.path ≠ .outside) →
      Nesting.total (itemsOf ctx prev files) d =
        ((files.filter fun f => decide (Under d f)).map fileFigure).sum +
          ((landing d prev files).map fileFigure).sum
  | prev, [], _ => by simp [itemsOf, Nesting.total, landing]
  | prev, f :: files, h => by
    obtain ⟨habs, hin⟩ := h f List.mem_cons_self
    have ih : Nesting.total (itemsOf ctx (some f) files) d = _ :=
      total_itemsOf hd fun g hg => h g (List.mem_cons_of_mem _ hg)
    have hmem : d ∈ (itemOf ctx prev f).chain ↔ _ := mem_itemOf ctx habs hin
    rw [itemsOf, Nesting.total_cons, ih, landing]
    by_cases hu : Under d f
    · have hne : ¬(f.path = d ∧ LandsOn prev f) := fun h => hu.2 h.1.symm
      rw [if_pos (hmem.mpr ⟨hd, .inl hu⟩), if_neg hne, List.filter_cons, if_pos (by simpa using hu),
        List.map_cons, List.sum_cons, add_assoc]
      rfl
    · have hskip : (f :: files).filter (fun f => decide (Under d f)) =
          files.filter fun f => decide (Under d f) := by simp [hu]
      rw [hskip]
      by_cases hl : f.path = d ∧ LandsOn prev f
      · rw [if_pos (hmem.mpr ⟨hd, .inr ⟨hl.1.symm, hl.2⟩⟩), if_pos hl, List.map_cons, List.sum_cons,
          add_left_comm]
        rfl
      · rw [if_neg (fun h => ?_), if_neg hl, zero_add]
        obtain ⟨-, hu' | ⟨heq, hl'⟩⟩ := hmem.mp h
        · exact hu hu'
        · exact hl ⟨heq.symm, hl'⟩

end Totals

theorem sum_fileFigure : ∀ (files : List ManifestFile),
    ((files.map fileFigure).sum.2.2 = 0 ↔ ∀ f ∈ files, f.hash ≠ none) ∧
      ((∀ f ∈ files, f.hash ≠ none) → (files.map fileFigure).sum =
        ((files.map fun f => f.size.toNat).sum, files.length, 0))
  | [] => ⟨by simp, fun _ => rfl⟩
  | f :: files => by
    obtain ⟨hzero, hsum⟩ := sum_fileFigure files
    rw [List.map_cons, List.sum_cons, List.forall_mem_cons, Prod.snd_add, Prod.snd_add,
      Nat.add_eq_zero_iff, hzero]
    cases hhash : f.hash with
    | none => simp [fileFigure, hhash]
    | some hash =>
      refine ⟨by simp [fileFigure, hhash], fun h => ?_⟩
      rw [hsum h.2]
      simp [fileFigure, hhash, Nat.add_comm]

/-! ## The streaming builder against the whole-subtree builder -/

section Main

variable (ctx : SignatureContext) (signatureOf : List (Bytes × Bytes) → Bytes)

/-- The walk emits what the whole-subtree builder keeps: each directory once, with the figures of
all files under it and the trust of its disposition, children before parents, and no frame is
opened above a root. -/
structure Exact (files : List ManifestFile) (whole : List KeptDir) (w : Walk) : Prop where
  once : (w.emitted.map DirSignature.path).Nodup
  kept : ∀ d, d ∈ w.emitted.map DirSignature.path ↔ d ∈ whole.map KeptDir.path
  bytes : ∀ s ∈ w.emitted, s.size.toNat = bytesUnder files s.path
  count : ∀ s ∈ w.emitted, s.fileCount.toNat = countUnder files s.path
  trust : ∀ s ∈ w.emitted, trustOf (ctx.disposition s.path) = some s.trust
  order : w.emitted.Pairwise fun a b => ¬ a.path <+: b.path
  frames : ∀ set, ctx.bounds = some set → ∀ d ∈ w.opened, ∃ r ∈ set.roots, startsWithKey d r = true

/-- Both builders refuse for the same file, or the walk emits what the other one keeps. -/
def StreamMeets (files : List ManifestFile) : Prop :=
  match keptDirs ctx files with
  | .error e => (stream ctx signatureOf Walk.start files).1 = .error e
  | .ok whole => (stream ctx signatureOf Walk.start files).1 = .ok () ∧
      Exact ctx files whole (stream ctx signatureOf Walk.start files).2

/-- In every directory that is kept the counters hold the figures, and no file at the pathname of
that directory comes right behind a file under it. -/
def Fits (files : List ManifestFile) : Prop :=
  (∀ f ∈ files, ctx.scope f.path ≠ .outside) → ∀ d, Keeps ctx files d →
    bytesUnder files d < 2 ^ 64 ∧ countUnder files d < 2 ^ 32 ∧
      ∀ before f after, files = before ++ f :: after → f.path = d → ¬ LandsOn before.getLast? f

/-- The nodes that are closed in the end. -/
def nodes (files : List ManifestFile) : List (Path × Figure) :=
  Nesting.run (weight ctx) (itemsOf ctx none files)

/-- The figures of the files under a directory that is kept. -/
theorem sum_of_kept {files : List ManifestFile} {d : Path} (hkeep : Keeps ctx files d) :
    ((files.filter fun f => decide (Under d f)).map fileFigure).sum =
      (bytesUnder files d, countUnder files d, 0) := by
  apply (sum_fileFigure _).2
  intro f hf
  obtain ⟨hmem, hu⟩ := List.mem_filter.mp hf
  exact hkeep.hashed f hmem (of_decide_eq_true hu)

variable {files : List ManifestFile} (hlisted : Listed files)
  (hin : ∀ f ∈ files, ctx.scope f.path ≠ .outside)

include hlisted hin

theorem emitted_eq : (stream ctx signatureOf Walk.start files).2.emitted.map DirSignature.figures =
      (nodes ctx files).filterMap (emission ctx) ∧
    ∀ d ∈ (stream ctx signatureOf Walk.start files).2.opened, ctx.scope d ≠ .outside := by
  have hstart : Tracks ctx [] files Walk.start ([], []) := by
    refine ⟨⟨rfl, by simp [Nesting.nodesOf, itemsOf], List.Pairwise.nil, by simp, ?_⟩, .nil, rfl, rfl,
      fun d hd => absurd hd List.not_mem_nil⟩
    simp [Nesting.settled]
  exact stream_tracks ctx signatureOf (show Listed ([] ++ files) from hlisted) hin hstart

/-- The node of a directory: in scope, with a file under it. -/
theorem mem_nodes {d : Path} : d ∈ (nodes ctx files).map Prod.fst ↔ ∃ f ∈ files, d ∈ above ctx f := by
  obtain ⟨hmem, -, -⟩ := Nesting.run_spec (forest ctx) (w := weight ctx)
    (isChain_itemsOf ctx hlisted) (together_itemsOf ctx hlisted hin)
  unfold nodes
  rw [hmem]
  constructor
  · rintro ⟨x, hx, hd⟩
    obtain ⟨fs, f, gs, hfiles, rfl⟩ := mem_itemsOf ctx hx
    have hf : f ∈ files := by rw [hfiles]; simp
    rw [mem_itemOf ctx (hlisted.absolute f hf) (hin f hf)] at hd
    obtain ⟨⟨hdabs, hds⟩, ⟨hpre, hne⟩ | ⟨rfl, g, hg, hu⟩⟩ := hd
    · exact ⟨f, hf, (mem_accountable ctx (hlisted.absolute f hf)).mpr ⟨hpre, hne, hdabs, hds⟩⟩
    · rw [Option.or_none] at hg
      have hg' : g ∈ files := by
        rw [hfiles]
        exact List.mem_append_left _ (List.mem_of_getLast? hg)
      exact ⟨g, hg', (mem_accountable ctx (hlisted.absolute g hg')).mpr ⟨hu.1, hu.2, hdabs, hds⟩⟩
  · rintro ⟨f, hf, hd⟩
    obtain ⟨fs, gs, rfl⟩ := List.append_of_mem hf
    refine ⟨itemOf ctx (fs.getLast?.or none) f, ?_, ?_⟩
    · rw [itemsOf_append]
      exact List.mem_append_right _ List.mem_cons_self
    · obtain ⟨hpre, hne, hdabs, hds⟩ := (mem_accountable ctx (hlisted.absolute f hf)).mp hd
      rw [mem_itemOf ctx (hlisted.absolute f hf) (hin f hf)]
      exact ⟨⟨hdabs, hds⟩, .inl ⟨hpre, hne⟩⟩

theorem scope_of_node {d : Path} (hd : d ∈ (nodes ctx files).map Prod.fst) :
    d.isAbsolute = true ∧ ctx.scope d ≠ .outside := by
  obtain ⟨f, hf, habove⟩ := (mem_nodes ctx hlisted hin).mp hd
  exact ((mem_accountable ctx (hlisted.absolute f hf)).mp habove).2.2

/-- The sum of a node whose directory is not suppressed is that of its files: nothing below it is
suppressed either. -/
theorem value_of_node {d : Path} {v : Figure} (hd : (d, v) ∈ nodes ctx files)
    (hallowed : ctx.disposition d ≠ .suppressed) :
    v = ((files.filter fun f => decide (Under d f)).map fileFigure).sum +
      ((landing d none files).map fileFigure).sum := by
  obtain ⟨-, -, hvalues⟩ := Nesting.run_spec (forest ctx) (w := weight ctx)
    (isChain_itemsOf ctx hlisted) (together_itemsOf ctx hlisted hin)
  have hvalue := hvalues (d, v) hd
  dsimp only at hvalue
  rw [total_itemsOf ctx (scope_of_node ctx hlisted hin (List.mem_map_of_mem hd))
    fun f hf => ⟨hlisted.absolute f hf, hin f hf⟩] at hvalue
  rw [hvalue]
  have hbelow : Nesting.below (up ctx) (weight ctx)
      ((Nesting.run (weight ctx) (itemsOf ctx none files)).map Prod.fst) d = 0 := by
    apply Nesting.below_eq_zero
    intro e he hne hup
    have hscope := scope_of_node ctx hlisted hin (d := e) he
    apply if_neg
    intro hs
    obtain heq | habove := (mem_up ctx hscope.1).mp hup
    · exact hne heq.symm
    · exact hallowed (ctx.upward e hs d habove)
  rw [hbelow, add_zero]

/-- An emitted signature and its node. -/
theorem mem_emitted {s : DirSignature}
    (hs : s ∈ (stream ctx signatureOf Walk.start files).2.emitted) :
    ∃ v, (s.path, v) ∈ nodes ctx files ∧ v.2.2 = 0 ∧ s.size = UInt64.ofNat v.1 ∧
      s.fileCount = UInt32.ofNat v.2.1 ∧ trustOf (ctx.disposition s.path) = some s.trust := by
  have hmem := List.mem_map_of_mem (f := DirSignature.figures) hs
  rw [(emitted_eq ctx signatureOf hlisted hin).1] at hmem
  obtain ⟨⟨d, v⟩, hnode, hemit⟩ := List.mem_filterMap.mp hmem
  unfold emission DirSignature.figures at hemit
  dsimp only at hemit
  split at hemit
  · cases hemit
  · rename_i trust htrust
    split at hemit
    · cases hemit
    · rename_i hzero
      simp only [Option.some.injEq, Prod.mk.injEq] at hemit
      obtain ⟨hpath, hsize, hcount, htr⟩ := hemit
      subst hpath
      exact ⟨v, hnode, Nat.eq_zero_of_not_pos hzero, hsize.symm, hcount.symm, htr ▸ htrust⟩

theorem emitted_of_node {d : Path} {v : Figure} (hnode : (d, v) ∈ nodes ctx files)
    (hzero : v.2.2 = 0) (hallowed : ctx.disposition d ≠ .suppressed) :
    d ∈ (stream ctx signatureOf Walk.start files).2.emitted.map DirSignature.path := by
  obtain ⟨trust, htrust⟩ : ∃ trust, trustOf (ctx.disposition d) = some trust := by
    cases ht : trustOf (ctx.disposition d) with
    | none => exact absurd (trustOf_eq_none.mp ht) hallowed
    | some trust => exact ⟨trust, rfl⟩
  have hmem : (d, UInt64.ofNat v.1, UInt32.ofNat v.2.1, trust) ∈
      (stream ctx signatureOf Walk.start files).2.emitted.map DirSignature.figures := by
    rw [(emitted_eq ctx signatureOf hlisted hin).1]
    refine List.mem_filterMap.mpr ⟨(d, v), hnode, ?_⟩
    unfold emission
    dsimp only
    rw [htrust]
    dsimp only
    rw [if_neg (by omega)]
  obtain ⟨s, hs, heq⟩ := List.mem_map.mp hmem
  exact List.mem_map.mpr ⟨s, hs, congrArg Prod.fst heq⟩

/-- An emitted directory is one that the whole-subtree builder keeps. -/
theorem keeps_of_emitted {s : DirSignature}
    (hs : s ∈ (stream ctx signatureOf Walk.start files).2.emitted) : Keeps ctx files s.path := by
  obtain ⟨v, hnode, hzero, -, -, htrust⟩ := mem_emitted ctx signatureOf hlisted hin hs
  have hallowed : ctx.disposition s.path ≠ .suppressed := by
    intro hsup
    rw [hsup] at htrust
    cases htrust
  rw [value_of_node ctx hlisted hin hnode hallowed, Prod.snd_add, Prod.snd_add,
    Nat.add_eq_zero_iff, (sum_fileFigure _).1] at hzero
  refine ⟨(mem_nodes ctx hlisted hin).mp (List.mem_map_of_mem hnode), ?_, hallowed⟩
  intro f hf hu
  exact hzero.1 f (List.mem_filter.mpr ⟨hf, decide_eq_true hu⟩)

/-- No directory is emitted before one that it lies above. -/
theorem walk_order :
    ((stream ctx signatureOf Walk.start files).2.emitted.map DirSignature.path).Pairwise
      fun a b => ¬ a <+: b := by
  obtain ⟨-, horder, -⟩ := Nesting.run_spec (forest ctx) (w := weight ctx)
    (isChain_itemsOf ctx hlisted) (together_itemsOf ctx hlisted hin)
  have hpaths : (stream ctx signatureOf Walk.start files).2.emitted.map DirSignature.path =
      ((nodes ctx files).filterMap (emission ctx)).map Prod.fst := by
    rw [← (emitted_eq ctx signatureOf hlisted hin).1, List.map_map]
    rfl
  have hsub : ((stream ctx signatureOf Walk.start files).2.emitted.map DirSignature.path).Sublist
      ((nodes ctx files).map Prod.fst) := by
    rw [hpaths]
    generalize nodes ctx files = ns
    induction ns with
    | nil => exact List.Sublist.refl _
    | cons e ns ih =>
      rw [List.filterMap_cons, List.map_cons]
      cases hemit : emission ctx e with
      | none => exact ih.cons _
      | some x =>
        have hfst : x.1 = e.1 := by
          unfold emission at hemit
          split at hemit
          · cases hemit
          · split at hemit
            · cases hemit
            · cases hemit
              rfl
        rw [List.map_cons, hfst]
        exact ih.cons_cons _
  have hpair := horder.sublist hsub
  refine hpair.imp_of_mem ?_
  intro a b ha hb hnot hpre
  have hscope := scope_of_node ctx hlisted hin (hsub.subset ha)
  have hscope' := scope_of_node ctx hlisted hin (hsub.subset hb)
  apply hnot
  rw [mem_up ctx hscope'.1, mem_accountable ctx hscope'.1]
  by_cases heq : a = b
  · exact .inl heq
  · exact .inr ⟨hpre, heq, hscope.1, hscope.2⟩

theorem exact_iff {whole : List KeptDir} (hwhole : keptDirs ctx files = .ok whole) :
    Exact ctx files whole (stream ctx signatureOf Walk.start files).2 ↔ Fits ctx files := by
  have hkept := mem_keptDirs ctx hlisted.absolute hwhole
  constructor
  · rintro ⟨-, hmem, hbytes, hcount, -, -, -⟩ - d hkeep
    obtain ⟨s, hs, rfl⟩ := List.mem_map.mp ((hmem d).mpr ((hkept d).mpr hkeep))
    have hb := hbytes s hs
    have hc := hcount s hs
    have hb' := s.size.toNat_lt
    have hc' := s.fileCount.toNat_lt
    refine ⟨hb ▸ hb', hc ▸ hc', ?_⟩
    intro before f after hfiles hpath hl
    -- the file that lands on the directory is counted in it
    obtain ⟨v, hnode, hzero, -, hfc, -⟩ := mem_emitted ctx signatureOf hlisted hin hs
    have hland : f ∈ landing s.path none files :=
      mem_landing.mpr ⟨hpath, before, after, hfiles, by rw [Option.or_none]; exact hl⟩
    have hone : (landing s.path none files).length = 1 := by
      have hle := landing_length (d := s.path) hlisted.distinct
      have hpos := List.length_pos_of_mem hland
      omega
    have hv := value_of_node ctx hlisted hin hnode hkeep.allowed
    rw [sum_of_kept ctx hkeep] at hv
    have hmissing : ((landing s.path none files).map fileFigure).sum.2.2 = 0 := by
      rw [hv, Prod.snd_add, Prod.snd_add] at hzero
      omega
    have hsum := (sum_fileFigure _).2 ((sum_fileFigure _).1.mp hmissing)
    rw [hsum, hone] at hv
    have hfiles' : v.2.1 = countUnder files s.path + 1 := by rw [hv]; rfl
    rw [hfc, hfiles', UInt32.toNat_ofNat'] at hc
    omega
  · intro hfits
    have hfits := hfits hin
    have hvalue : ∀ d v, (d, v) ∈ nodes ctx files → Keeps ctx files d →
        v = (bytesUnder files d, countUnder files d, 0) := by
      intro d v hnode hkeep
      have hnone : landing d none files = [] := by
        rw [List.eq_nil_iff_forall_not_mem]
        intro f hf
        obtain ⟨hpath, before, after, hfiles, hl⟩ := mem_landing.mp hf
        rw [Option.or_none] at hl
        exact (hfits d hkeep).2.2 before f after hfiles hpath hl
      have hv := value_of_node ctx hlisted hin hnode hkeep.allowed
      rw [sum_of_kept ctx hkeep, hnone] at hv
      rw [hv]
      rfl
    have horder := walk_order ctx signatureOf hlisted hin
    refine ⟨?_, ?_, ?_, ?_, ?_, ?_, ?_⟩
    · refine horder.imp ?_
      rintro a _ hnot rfl
      exact hnot (List.prefix_refl _)
    · intro d
      rw [hkept]
      constructor
      · intro hd
        obtain ⟨s, hs, rfl⟩ := List.mem_map.mp hd
        exact keeps_of_emitted ctx signatureOf hlisted hin hs
      · intro hkeep
        obtain ⟨⟨d', v⟩, hnode, rfl⟩ := List.mem_map.mp ((mem_nodes ctx hlisted hin).mpr
          hkeep.some_file)
        have hv := hvalue d' v hnode hkeep
        exact emitted_of_node ctx signatureOf hlisted hin hnode (by rw [hv]) hkeep.allowed
    · intro s hs
      have hkeep := keeps_of_emitted ctx signatureOf hlisted hin hs
      obtain ⟨v, hnode, -, hsize, -, -⟩ := mem_emitted ctx signatureOf hlisted hin hs
      rw [hsize, hvalue _ v hnode hkeep, UInt64.toNat_ofNat']
      exact Nat.mod_eq_of_lt (hfits s.path hkeep).1
    · intro s hs
      have hkeep := keeps_of_emitted ctx signatureOf hlisted hin hs
      obtain ⟨v, hnode, -, -, hcount, -⟩ := mem_emitted ctx signatureOf hlisted hin hs
      rw [hcount, hvalue _ v hnode hkeep, UInt32.toNat_ofNat']
      exact Nat.mod_eq_of_lt (hfits s.path hkeep).2.1
    · intro s hs
      obtain ⟨v, -, -, -, -, htrust⟩ := mem_emitted ctx signatureOf hlisted hin hs
      exact htrust
    · rw [List.pairwise_map] at horder
      exact horder
    · intro set hset d hd
      have hscope := (emitted_eq ctx signatureOf hlisted hin).2 d hd
      obtain ⟨hb, -⟩ | ⟨set', r, hb, hr, hstart, -⟩ | ⟨set', -, -, hs⟩ := scope_cases ctx d
      · rw [hset] at hb
        cases hb
      · obtain rfl : set = set' := Option.some.inj (hset.symm.trans hb)
        exact ⟨r, hr, hstart⟩
      · exact absurd hs hscope

end Main

/-- A manifest as a build reads it. -/
structure Listing where
  files : List ManifestFile
  listed : Listed files

theorem keptDirs_error (ctx : SignatureContext) (signatureOf : List (Bytes × Bytes) → Bytes)
    (files : List ManifestFile) : (stream ctx signatureOf Walk.start files).1 =
      (keptDirs ctx files).map fun _ => () := by
  rw [stream_result ctx signatureOf files Walk.start OrdMap.empty, keptDirs]
  cases byDir ctx OrdMap.empty files <;> rfl

/-- The whole-subtree builder ends where every file is under a root. -/
theorem in_scope_of_byDir (ctx : SignatureContext) : ∀ {files : List ManifestFile}
    {m m' : OrdMap Path DirAccum}, byDir ctx m files = .ok m' →
      ∀ f ∈ files, ctx.scope f.path ≠ .outside
  | [], _, _, _, f, hf => absurd hf List.not_mem_nil
  | file :: files, m, m', h, f, hf => by
    unfold byDir at h
    cases hs : ctx.scope file.path with
    | outside =>
      rw [hs] at h
      cases h
    | unbounded =>
      rw [hs] at h
      obtain rfl | hf := List.mem_cons.mp hf
      · rw [hs]
        exact fun h => by cases h
      · exact in_scope_of_byDir ctx h f hf
    | root r =>
      rw [hs] at h
      obtain rfl | hf := List.mem_cons.mp hf
      · rw [hs]
        exact fun h => by cases h
      · exact in_scope_of_byDir ctx h f hf

theorem byDir_of_in_scope (ctx : SignatureContext) : ∀ {files : List ManifestFile}
    (m : OrdMap Path DirAccum), (∀ f ∈ files, ctx.scope f.path ≠ .outside) →
      ∃ m', byDir ctx m files = .ok m'
  | [], m, _ => ⟨m, rfl⟩
  | file :: files, m, h => by
    have hrest : ∀ m, ∃ m', byDir ctx m files = .ok m' := fun m =>
      byDir_of_in_scope ctx m fun f hf => h f (List.mem_cons_of_mem _ hf)
    unfold byDir
    cases hs : ctx.scope file.path with
    | outside => exact absurd hs (h file List.mem_cons_self)
    | unbounded => exact hrest _
    | root r => exact hrest _

/-- **The streaming builder emits exactly what the whole-subtree builder keeps**, if and only if
in every kept directory the counters hold and no file lands on it. -/
theorem stream_meets_iff (ctx : SignatureContext) (signatureOf : List (Bytes × Bytes) → Bytes)
    (l : Listing) : StreamMeets ctx signatureOf l.files ↔ Fits ctx l.files := by
  have hresult := keptDirs_error ctx signatureOf l.files
  unfold StreamMeets
  cases hwhole : keptDirs ctx l.files with
  | error e =>
    rw [hwhole] at hresult
    constructor
    · rintro - hin
      obtain ⟨m, hm⟩ := byDir_of_in_scope ctx OrdMap.empty hin
      simp [keptDirs, hm] at hwhole
    · intro _
      exact hresult
  | ok whole =>
    rw [hwhole] at hresult
    have hin : ∀ f ∈ l.files, ctx.scope f.path ≠ .outside := by
      cases hm : byDir ctx OrdMap.empty l.files with
      | error e => simp [keptDirs, hm] at hwhole
      | ok m => exact in_scope_of_byDir ctx hm
    rw [← exact_iff ctx signatureOf l.listed hin hwhole]
    exact and_iff_right hresult

/-! ## Counters that do not hold -/

def bigFile (name : Byte) (h : isName [name] = true) : ManifestFile :=
  ⟨[.rootDir, .normal ⟨[name], h⟩], 9223372036854775807, some [1]⟩

theorem isName_x : isName [120] = true := rfl

theorem isName_y : isName [121] = true := rfl

theorem isName_z : isName [122] = true := rfl

/-- Three sparse files of the greatest size a file can have. -/
def bigFiles : List ManifestFile := [bigFile 120 isName_x, bigFile 121 isName_y, bigFile 122 isName_z]

/-- Every file lies in the root directory and in no other. -/
theorem under_bigFile {name : Byte} {h : isName [name] = true} {d : Path} :
    Under d (bigFile name h) ↔ d = [] ∨ d = [.rootDir] := by
  unfold Under bigFile
  dsimp only
  constructor
  · rintro ⟨⟨rest, hrest⟩, hne⟩
    cases d with
    | nil => exact .inl rfl
    | cons c d =>
      obtain ⟨rfl, htail⟩ := List.cons.inj hrest
      cases d with
      | nil => exact .inr rfl
      | cons c d =>
        obtain ⟨rfl, hnil⟩ := List.cons.inj htail
        obtain ⟨rfl, -⟩ := List.append_eq_nil_iff.mp hnil
        exact absurd rfl hne
  · rintro (rfl | rfl)
    · exact ⟨List.nil_prefix, by simp⟩
    · exact ⟨⟨_, rfl⟩, by simp⟩

theorem mem_bigFiles {f : ManifestFile} (h : f ∈ bigFiles) : ∃ name valid, f = bigFile name valid := by
  simp only [bigFiles, List.mem_cons, List.not_mem_nil, or_false] at h
  obtain rfl | rfl | rfl := h
  all_goals exact ⟨_, _, rfl⟩

/-- The sizes of three such files do not fit in the counter of their directory. -/
theorem not_stream_meets : Listed bigFiles ∧ ¬ StreamMeets legacyContext (fun _ => []) bigFiles := by
  refine ⟨⟨by decide, by decide, ?_⟩, ?_⟩
  · intro d before f mid g after hsplit hf _ h hh
    obtain ⟨name, valid, rfl⟩ := mem_bigFiles (f := f) (by rw [hsplit]; simp)
    obtain ⟨name', valid', rfl⟩ := mem_bigFiles (f := h) (by rw [hsplit]; simp [hh])
    exact under_bigFile.mpr (under_bigFile.mp hf)
  · intro hmeets
    have hbytes : ∃ s ∈ (stream legacyContext (fun _ => []) Walk.start bigFiles).2.emitted,
        s.size.toNat ≠ bytesUnder bigFiles s.path := by decide
    obtain ⟨s, hs, hne⟩ := hbytes
    unfold StreamMeets at hmeets
    split at hmeets
    · rename_i e he
      have hok : (stream legacyContext (fun _ => []) Walk.start bigFiles).1.isOk = true := by decide
      rw [hmeets] at hok
      cases hok
    · exact hne (hmeets.2.bytes s hs)

end Signatures

end DedupCommando
