import DedupCommando.Model.PathKeyAlgebra
import DedupCommando.Store.LeaseGrant
import DedupCommando.Store.PanelFiles

/-!
# A batch answers what each pathname alone answers

* `isUtf8_lossyUtf8`, `isUtf8_of_pathOf_eq` — what a lossy spelling can be mistaken for.
* `foldl_keyed` — updates by key, one after the other.
* `panelFiles_eq` — a batch is the answers of its names, one by one.
* `panel_agrees` — **each of them is what `file_info` and `group_of_path` say**.
* `not_panel_answers_each` — a name that is not UTF-8 has no answer in a batch.
-/

set_option autoImplicit false

namespace DedupCommando

open Sql (Value)

/-! ## Spellings -/

theorem isUtf8_replacement (rest : Bytes) : isUtf8 (replacement ++ rest) = isUtf8 rest :=
  isUtf8_three rest (by decide) (by decide) (by decide) (by decide)

theorem leadsTwo_of_three {a b : Byte} (h : leadsThree a b = true)
    (hb : ¬(leadsTwo a && isContinuation b) = true) : leadsTwo a = false := by
  unfold leadsThree at h
  simp only [Bool.and_eq_true] at h hb
  simpa [h.1] using hb

theorem leadsTwo_of_four {a b : Byte} (h : leadsFour a b = true)
    (hb : ¬(leadsTwo a && isContinuation b) = true) : leadsTwo a = false := by
  unfold leadsFour at h
  simp only [Bool.and_eq_true] at h hb
  simpa [h.1] using hb

/-- What the lossy conversion writes is text. -/
theorem isUtf8_lossyUtf8 (b : Bytes) : isUtf8 (lossyUtf8 b) = true := by
  fun_induction lossyUtf8 b with
  | case1 => rfl
  | case2 a l ha ih => rw [isUtf8_one _ ha]; exact ih
  | case4 a ha b l hb ih =>
    rw [Bool.and_eq_true] at hb
    rw [isUtf8_two _ ha hb.1 hb.2]
    exact ih
  | case6 a ha b hb hthree c l hc ih =>
    rw [isUtf8_three _ ha (leadsTwo_of_three hthree hb) hthree hc]
    exact ih
  | case10 a ha b hb hthree hfour c hc d l hd ih =>
    rw [isUtf8_four _ ha (leadsTwo_of_four hfour hb) (Bool.eq_false_iff.2 hthree) hfour hc hd]
    exact ih
  | case7 a ha b hb hthree c l hc ih => rw [isUtf8_replacement]; exact ih
  | case11 a ha b hb hthree hfour c hc d l hd ih => rw [isUtf8_replacement]; exact ih
  | case12 a ha b hb hthree hfour c l hc ih => rw [isUtf8_replacement]; exact ih
  | case13 a ha b l hb hthree hfour ih => rw [isUtf8_replacement]; exact ih
  | _ => rfl

theorem slash_continues (a : Byte) :
    isContinuation 47 = false ∧ leadsThree a 47 = false ∧ leadsFour a 47 = false := by
  refine ⟨by decide, ?_, ?_⟩
  · unfold leadsThree
    rw [show isContinuation 47 = false from by decide, Bool.false_and]
  · unfold leadsFour
    rw [show isContinuation 47 = false from by decide, Bool.false_and]

/-- A separator stands in no character. -/
theorem isUtf8_slash (a b : Bytes) : isUtf8 (a ++ 47 :: b) = (isUtf8 a && isUtf8 b) := by
  fun_induction isUtf8 a with
  | case1 => exact isUtf8_one b (by decide)
  | case2 a l ha ih =>
    rw [List.cons_append, isUtf8_one _ ha]
    exact ih
  | case3 a ha =>
    obtain ⟨hc, hthree, hfour⟩ := slash_continues a
    rw [isUtf8.eq_def]
    rcases b with _ | ⟨c, _ | ⟨d, b⟩⟩ <;> simp [ha, hc, hthree, hfour]
  | case4 a ha c l hc ih =>
    rw [Bool.and_eq_true] at hc
    rw [List.cons_append, List.cons_append, isUtf8_two _ ha hc.1 hc.2]
    exact ih
  | case5 a ha c hc =>
    rw [isUtf8.eq_def]
    rcases b with _ | ⟨d, b⟩ <;> simp [ha, hc, (slash_continues c).1]
  | case6 a ha c hc d l hthree ih =>
    rw [isUtf8.eq_def]
    simp [ha, hc, hthree, ih, Bool.and_assoc]
  | case7 a ha c hc d hthree =>
    rw [isUtf8.eq_def]
    simp [ha, hc, hthree, (slash_continues c).1]
  | case8 a ha c hc d hthree e l ih =>
    rw [isUtf8.eq_def]
    simp [ha, hc, hthree, ih, Bool.and_assoc]

theorem isUtf8_ascii : ∀ {b : Bytes}, (∀ x ∈ b, x < 0x80) → isUtf8 b = true
  | [], _ => rfl
  | a :: b, h => by
    rw [isUtf8_one b (h a List.mem_cons_self)]
    exact isUtf8_ascii fun x hx => h x (List.mem_cons_of_mem a hx)

theorem isUtf8_intercalate : ∀ pieces : List Bytes,
    isUtf8 ([47].intercalate pieces) = pieces.all isUtf8
  | [] => rfl
  | [a] => by
    rw [List.intercalate_singleton, List.all_cons, List.all_nil, Bool.and_true]
  | a :: b :: pieces => by
    have hcons : ([47] : Bytes).intercalate (a :: b :: pieces) =
        a ++ 47 :: ([47] : Bytes).intercalate (b :: pieces) := by
      simp [List.intercalate]
    rw [hcons, isUtf8_slash, isUtf8_intercalate (b :: pieces)]
    rfl

theorem mem_of_mem_splitOn {raw s : Bytes} {x : Byte} (h : s ∈ raw.splitOn 47) (hx : x ∈ s) :
    x ∈ raw := by
  have hmem : ∀ pieces : List Bytes, s ∈ pieces → x ∈ ([47] : Bytes).intercalate pieces := by
    intro pieces
    induction pieces with
    | nil => exact fun h => absurd h List.not_mem_nil
    | cons a pieces ih =>
      intro hs
      rcases pieces with _ | ⟨b, pieces⟩
      · rw [List.intercalate_singleton]
        rwa [List.mem_singleton.1 hs] at hx
      · have hcons : ([47] : Bytes).intercalate (a :: b :: pieces) =
            a ++ 47 :: ([47] : Bytes).intercalate (b :: pieces) := by
          simp [List.intercalate]
        rw [hcons, List.mem_append, List.mem_cons]
        rcases List.mem_cons.1 hs with rfl | hs
        · exact .inl hx
        · exact .inr (.inr (ih hs))
  have hjoin : ([47] : Bytes).intercalate (raw.splitOn 47) = raw := List.intercalate_splitOn 47
  rw [← hjoin]
  exact hmem _ h

/-- A component that is text. -/
def Component.isText : Component → Bool
  | .normal n => isUtf8 n.bytes
  | _ => true

theorem partsOf_plain : ∀ {pieces : List Bytes}, (∀ s ∈ pieces, (0 : Byte) ∉ s ∧ (47 : Byte) ∉ s) →
    ∃ p, Path.partsOf pieces = some p ∧ p.all Component.isText = pieces.all isUtf8
  | [], _ => ⟨[], rfl, rfl⟩
  | b :: pieces, h => by
    obtain ⟨p, hp, htext⟩ := partsOf_plain fun s hs => h s (List.mem_cons_of_mem b hs)
    unfold Path.partsOf
    rw [List.all_cons, ← htext]
    by_cases hskip : b = [] ∨ b = [46]
    · rw [if_pos hskip]
      refine ⟨p, hp, ?_⟩
      rcases hskip with rfl | rfl <;> rfl
    rw [if_neg hskip]
    by_cases hup : b = [46, 46]
    · rw [if_pos hup, hp]
      refine ⟨.parentDir :: p, rfl, ?_⟩
      rw [hup]
      rfl
    rw [if_neg hup]
    rw [not_or] at hskip
    have hname : isName b = true :=
      decide_eq_true ⟨hskip.1, hskip.2, hup, h b List.mem_cons_self⟩
    rw [dif_pos hname, hp]
    exact ⟨_, rfl, rfl⟩

/-- Whether a spelling is text can be told from its components. -/
theorem isUtf8_eq_all_pathOf {raw : Bytes} (h : (0 : Byte) ∉ raw) :
    isUtf8 raw = (pathOf raw).all Component.isText := by
  have hpieces : ∀ s ∈ raw.splitOn 47, (0 : Byte) ∉ s ∧ (47 : Byte) ∉ s := fun s hs =>
    ⟨fun hx => h (mem_of_mem_splitOn hs hx), PathKey.slash_notMem_of_mem_splitOn hs⟩
  have hraw : isUtf8 raw = (raw.splitOn 47).all isUtf8 := by
    rw [← isUtf8_intercalate, List.intercalate_splitOn]
  rw [hraw]
  unfold pathOf Path.ofText
  obtain ⟨first, rest, hsplit⟩ := List.exists_cons_of_ne_nil (List.splitOn_ne_nil 47 raw)
  rw [hsplit] at hpieces ⊢
  obtain ⟨p, hp, htext⟩ := partsOf_plain fun s hs => hpieces s (List.mem_cons_of_mem first hs)
  simp only
  by_cases hroot : raw.head? = some 47
  · have hfirst : first = [] := by
      obtain ⟨tail, rfl⟩ : ∃ tail, raw = 47 :: tail := by
        cases raw with
        | nil => cases hroot
        | cons x tail => exact ⟨tail, by rw [Option.some.inj hroot]⟩
      rw [List.splitOn_cons_eq_if_modifyHead, if_pos (beq_self_eq_true _)] at hsplit
      exact (List.cons.inj hsplit).1.symm
    rw [if_pos hroot, hp, hfirst, List.all_cons, ← htext]
    rfl
  rw [if_neg hroot]
  by_cases hdot : first = [46]
  · rw [if_pos hdot, hp, hdot, List.all_cons, ← htext]
    rfl
  · obtain ⟨p', hp', htext'⟩ := partsOf_plain hpieces
    rw [if_neg hdot, hp', ← htext']
    rfl

theorem zero_notMem_lossyUtf8 {b : Bytes} (h : (0 : Byte) ∉ b) : (0 : Byte) ∉ lossyUtf8 b := by
  have hrep : (0 : Byte) ∉ replacement := by decide
  fun_induction lossyUtf8 b <;>
    simp_all only [List.mem_cons, List.mem_append, List.not_mem_nil, not_or, not_false_eq_true,
      and_self, or_self, or_false]

/-- **A name that is not UTF-8 is no key that a text makes**, its own lossy spelling included. -/
theorem isUtf8_of_pathOf_eq {raw text : Bytes} (hraw : (0 : Byte) ∉ raw) (htext : (0 : Byte) ∉ text)
    (hutf : isUtf8 text = true) (h : pathOf raw = pathOf text) : isUtf8 raw = true := by
  rw [isUtf8_eq_all_pathOf hraw, h, ← isUtf8_eq_all_pathOf htext]
  exact hutf

/-! ## Updates by key -/

/-- What is known under a key changed by what one name has to say. -/
def Panel.at (g : Option PanelFile → Option PanelFile) (key : Path) (out : Snapshot.Panel) :
    Snapshot.Panel := Function.update out key (g (out key))

/-- The names that are one path with this one are spelled like it. -/
def SpelledAlike (want : List Bytes) (w : Bytes) : Prop :=
  ∀ v ∈ want, pathOf v = pathOf w → v = w

section Fold

variable {g : Bytes → Option PanelFile → Option PanelFile}

/-- A key that no name has keeps what it had. -/
theorem foldl_other {key : Path} : ∀ {want : List Bytes} {out : Snapshot.Panel},
    (∀ w ∈ want, pathOf w ≠ key) →
      (want.foldl (fun out w => Panel.at (g w) (pathOf w) out) out) key = out key
  | [], _, _ => rfl
  | v :: want, out, hkey => by
    rw [List.foldl_cons, foldl_other fun w hw => hkey w (List.mem_cons_of_mem v hw)]
    unfold Panel.at
    rw [Function.update_of_ne (hkey v List.mem_cons_self).symm]

/-- **A key ends with what its own name says**, however often the name was asked for. -/
theorem foldl_asked (hsame : ∀ w o, g w (g w o) = g w o) {w : Bytes} : ∀ {want : List Bytes}
    {out : Snapshot.Panel}, w ∈ want → SpelledAlike want w →
      (want.foldl (fun out w => Panel.at (g w) (pathOf w) out) out) (pathOf w) =
        g w (out (pathOf w))
  | v :: want, out, hw, hspelled => by
    have hrest : SpelledAlike want w := fun u hu => hspelled u (List.mem_cons_of_mem v hu)
    rw [List.foldl_cons]
    by_cases hvw : v = w
    · subst hvw
      have hthere : Panel.at (g v) (pathOf v) out (pathOf v) = g v (out (pathOf v)) :=
        Function.update_self _ _ _
      by_cases hagain : v ∈ want
      · rw [foldl_asked hsame hagain hrest, hthere, hsame]
      · rw [foldl_other fun u hu he => hagain (hrest u hu he ▸ hu), hthere]
    · have hkey : pathOf w ≠ pathOf v := fun he => hvw (hspelled v List.mem_cons_self he.symm)
      rw [foldl_asked hsame ((List.mem_cons.1 hw).resolve_left (Ne.symm hvw)) hrest]
      unfold Panel.at
      rw [Function.update_of_ne hkey]

/-- Where every name puts something under its key, the keys of the names have something. -/
theorem foldl_isSome_asked (hsets : ∀ w o, (g w o).isSome = true) {key : Path} :
    ∀ {want : List Bytes} {out : Snapshot.Panel},
      (∃ w ∈ want, pathOf w = key) ∨ (out key).isSome = true →
        ((want.foldl (fun out w => Panel.at (g w) (pathOf w) out) out) key).isSome = true
  | [], _, h => h.resolve_left fun ⟨_, hw, _⟩ => absurd hw List.not_mem_nil
  | v :: want, out, h => by
    rw [List.foldl_cons]
    apply foldl_isSome_asked hsets
    unfold Panel.at
    by_cases hkey : pathOf v = key
    · subst hkey
      exact .inr (by rw [Function.update_self]; exact hsets v _)
    · rw [Function.update_of_ne (Ne.symm hkey)]
      refine h.imp_left fun ⟨w, hw, he⟩ => ⟨w, (List.mem_cons.1 hw).resolve_left ?_, he⟩
      rintro rfl
      exact hkey he

/-- Where no name adds or removes anything, there is something under the same keys. -/
theorem foldl_isSome_same (hsame : ∀ w o, (g w o).isSome = o.isSome) {key : Path} :
    ∀ {want : List Bytes} {out : Snapshot.Panel},
      ((want.foldl (fun out w => Panel.at (g w) (pathOf w) out) out) key).isSome =
        (out key).isSome
  | [], _ => rfl
  | v :: want, out => by
    rw [List.foldl_cons, foldl_isSome_same hsame]
    unfold Panel.at
    by_cases hkey : pathOf v = key
    · subst hkey
      rw [Function.update_self, hsame]
    · rw [Function.update_of_ne (Ne.symm hkey)]

end Fold

/-! ## The rows of one name -/

theorem isUtf8_lowerHex (v : Value) : isUtf8 (Sql.lowerHex v) = true := by
  have hhex : ∀ b : Bytes, isUtf8 (Sql.hexText b) = true := fun b => isUtf8_ascii fun x hx => by
    have := Sql.mem_hexText hx
    rw [Fin.lt_def]
    show x.val < 128
    omega
  cases v with
  | null => rfl
  | real q => rfl
  | integer n => exact hhex _
  | text b => exact hhex b
  | blob b => exact hhex b

/-- The digest of a manifest row, as it is shown. -/
def shownDigest (f : FileRow) : Option Bytes :=
  if f.hash = .null then none else some (Sql.lowerHex f.hash)

theorem getOptText_digestText (f : FileRow) : getOptText (digestText f) = .ok (shownDigest f) := by
  unfold digestText shownDigest
  split
  · rfl
  · unfold getOptText
    simp only
    rw [if_pos (isUtf8_lowerHex f.hash)]

theorem getText_utf8 {w : Bytes} (h : isUtf8 w = true) : getText (.text w) = .ok w := if_pos h

/-- The manifest row of a pathname, and no other. -/
theorem filesAt_cases {t : ScanTables} (hkeyed : t.Keyed) (v : Value) :
    t.filesAt v = [] ∨ ∃ f, t.filesAt v = [f] := by
  rcases h : t.filesAt v with _ | ⟨f, rest⟩
  · exact .inl rfl
  · have hf : f ∈ t.file.filter fun f => Value.same f.path v := by
      show f ∈ t.filesAt v
      rw [h]
      exact List.mem_cons_self
    have hone := (filter_key_unique hkeyed.paths hf).1
    refine .inr ⟨f, ?_⟩
    rw [← h]
    exact hone

namespace Snapshot

variable {s : Snapshot}

/-- What the manifest half says of a name. -/
def manifestFile (s : Snapshot) (w : Bytes) : PanelFile :=
  match s.tables.filesAt (.text w) with
  | [] => ⟨s.manifestStatus false false, none⟩
  | f :: _ => ⟨s.manifestStatus true (shownDigest f).isSome, shownDigest f⟩

theorem readManifest_eq (hkeyed : s.tables.Keyed) : ∀ {want : List Bytes} {out : Panel},
    (∀ w ∈ want, isUtf8 w = true) → s.readManifest (s.panelManifest want) out =
      .ok (want.foldl
        (fun out w => Panel.at (fun _ => some (s.manifestFile w)) (pathOf w) out) out)
  | [], out, _ => rfl
  | w :: want, out, hutf => by
    have htext := getText_utf8 (hutf w List.mem_cons_self)
    have hrest := fun out => @readManifest_eq hkeyed want out
      fun v hv => hutf v (List.mem_cons_of_mem w hv)
    have hcons : s.panelManifest (w :: want) =
        ((Sql.outer (fun f => Value.same f.path (.text w)) s.tables.file).map fun f =>
          (.text w, f.isSome, f.elim .null digestText)) ++ s.panelManifest want :=
      List.flatMap_cons
    rw [hcons, List.foldl_cons]
    rcases filesAt_cases hkeyed (.text w) with hnone | ⟨f, hone⟩
    · have houter : Sql.outer (fun f => Value.same f.path (.text w)) s.tables.file = [none] := by
        unfold Sql.outer
        rw [show s.tables.file.filter (fun f => Value.same f.path (.text w)) = [] from hnone]
      rw [houter]
      show s.readManifest ((.text w, false, .null) :: s.panelManifest want) out = _
      unfold readManifest
      rw [htext]
      simp only [getOptText]
      rw [hrest]
      unfold Panel.at manifestFile
      rw [hnone]
      rfl
    · have houter : Sql.outer (fun f => Value.same f.path (.text w)) s.tables.file = [some f] := by
        unfold Sql.outer
        rw [show s.tables.file.filter (fun f => Value.same f.path (.text w)) = [f] from hone]
        rfl
      rw [houter]
      show s.readManifest ((.text w, true, digestText f) :: s.panelManifest want) out = _
      unfold readManifest
      rw [htext]
      simp only [getOptText_digestText]
      rw [hrest]
      unfold Panel.at manifestFile
      rw [hone]

/-- A status that a later statement found, over the one there is. -/
def withStatus (found : Option PanelFileStatus) (o : Option PanelFile) : Option PanelFile :=
  match found with
  | none => o
  | some status => o.map fun f => { f with status := status }

theorem withStatus_twice (found : Option PanelFileStatus) (o : Option PanelFile) :
    withStatus found (withStatus found o) = withStatus found o := by
  cases found with
  | none => rfl
  | some status => cases o <;> rfl

theorem withStatus_isSome (found : Option PanelFileStatus) (o : Option PanelFile) :
    (withStatus found o).isSome = o.isSome := by
  cases found with
  | none => rfl
  | some status => cases o <;> rfl

theorem at_withStatus_none (key : Path) (out : Panel) : Panel.at (withStatus none) key out = out :=
  Function.update_eq_self key out

/-- What the candidate half says of a name. -/
def candidateStatus (s : Snapshot) (w : Bytes) : Option PanelFileStatus :=
  match s.tables.filesAt (.text w) with
  | [] => none
  | f :: _ =>
    let peers := (s.tables.file.filter fun p =>
      Value.same p.size f.size && decide (p.mtime = f.mtime)).length
    if f.hash = .null ∧ ¬peers < 2 then some (.likelyBySizeMtime peers) else none

theorem readCandidates_eq (hkeyed : s.tables.Keyed) : ∀ {want : List Bytes} {out : Panel},
    (∀ w ∈ want, isUtf8 w = true) → readCandidates (s.panelCandidates want) out =
      .ok (want.foldl
        (fun out w => Panel.at (withStatus (s.candidateStatus w)) (pathOf w) out) out)
  | [], out, _ => rfl
  | w :: want, out, hutf => by
    have htext := getText_utf8 (hutf w List.mem_cons_self)
    have hrest := fun out => @readCandidates_eq hkeyed want out
      fun v hv => hutf v (List.mem_cons_of_mem w hv)
    have hcons : s.panelCandidates (w :: want) =
        (((s.tables.filesAt (.text w)).filter fun f => decide (f.hash = .null)).map fun f =>
          (.text w, (s.tables.file.filter fun p =>
            Value.same p.size f.size && decide (p.mtime = f.mtime)).length)) ++
          s.panelCandidates want := List.flatMap_cons
    rw [hcons, List.foldl_cons]
    rcases filesAt_cases hkeyed (.text w) with hnone | ⟨f, hone⟩
    · have hstatus : s.candidateStatus w = none := by
        unfold candidateStatus
        rw [hnone]
      rw [hnone, hstatus, at_withStatus_none]
      exact hrest out
    have hstatus : s.candidateStatus w =
        if f.hash = .null ∧ ¬(s.tables.file.filter fun p =>
            Value.same p.size f.size && decide (p.mtime = f.mtime)).length < 2 then
          some (.likelyBySizeMtime (s.tables.file.filter fun p =>
            Value.same p.size f.size && decide (p.mtime = f.mtime)).length)
        else none := by
      unfold candidateStatus
      rw [hone]
    rw [hone, hstatus]
    by_cases hnull : f.hash = .null
    · simp only [List.filter_cons, hnull, decide_true, if_true, List.filter_nil, List.map_cons,
        List.map_nil, List.singleton_append, true_and]
      unfold readCandidates
      rw [htext]
      simp only
      by_cases hfew : (s.tables.file.filter fun p =>
          Value.same p.size f.size && decide (p.mtime = f.mtime)).length < 2
      · rw [if_pos hfew, if_neg (not_not.2 hfew), at_withStatus_none]
        exact hrest out
      · rw [if_neg hfew, if_pos hfew]
        exact hrest _
    · simp only [List.filter_cons, hnull, decide_false, Bool.false_eq_true, if_false,
        List.filter_nil, List.map_nil, List.nil_append, false_and, at_withStatus_none]
      exact hrest out

/-! ## The ranks of one name -/

/-- One group of a grouping, picked by its key. -/
theorem filter_groupByKey {α κ : Type} [LinearOrder κ] {key : α → κ} {l : List α} {k : κ}
    {p : κ × List α → Bool} {q : α → Bool} (hp : ∀ g, p g = true ↔ g.1 = k)
    (hq : ∀ a ∈ l, q a = true ↔ key a = k) :
    (Grouping.groupByKey key l).filter p =
      if l.filter q = [] then [] else [(k, l.filter q)] := by
  have hown : l.filter q = l.filter fun a => decide (key a = k) :=
    List.filter_congr fun a ha => Bool.eq_iff_iff.2 ((hq a ha).trans decide_eq_true_iff.symm)
  have hpick : (Grouping.keysOf key l).filter (fun k' => p (k', l.filter fun a =>
      decide (key a = k'))) = if k ∈ Grouping.keysOf key l then [k] else [] := by
    rw [List.filter_congr (q := fun k' => decide (k' = k)) fun k' _ =>
      Bool.eq_iff_iff.2 ((hp _).trans decide_eq_true_iff.symm), List.filter_eq]
    by_cases hk : k ∈ Grouping.keysOf key l
    · rw [if_pos hk, List.count_eq_one_of_mem (Grouping.nodup_keysOf key l) hk]
      rfl
    · rw [if_neg hk, List.count_eq_zero_of_not_mem hk]
      rfl
  rw [hown]
  unfold Grouping.groupByKey
  rw [List.filter_map]
  show ((Grouping.keysOf key l).filter fun k' => p (k', l.filter fun a =>
    decide (key a = k'))).map _ = _
  rw [hpick]
  by_cases hk : k ∈ Grouping.keysOf key l
  · obtain ⟨a, ha, hak⟩ := Grouping.mem_keysOf.1 hk
    have hne : l.filter (fun a => decide (key a = k)) ≠ [] :=
      List.ne_nil_of_mem (List.mem_filter.2 ⟨ha, decide_eq_true hak⟩)
    rw [if_pos hk, if_neg hne]
    rfl
  · have hnil : l.filter (fun a => decide (key a = k)) = [] := by
      refine List.filter_eq_nil_iff.2 fun a ha hak => hk (Grouping.mem_keysOf.2 ⟨a, ha, ?_⟩)
      exact of_decide_eq_true hak
    rw [if_neg hk, if_pos hnil]
    rfl

/-- The rows of one rank. -/
def rowsOfRank (s : Snapshot) (rank : Value) : List (Value × Int) :=
  s.panelRows.filter fun r => Value.same r.1 rank

/-- The rows a rank that was found is joined with are all of its own. -/
theorem panelJoin_eq (hit : List (Bytes × Value)) (rows : List (Value × Int)) :
    panelJoin hit rows = hit.flatMap fun h =>
      let own := rows.filter fun r => Value.same r.1 h.2
      if own = [] then []
      else [(.text h.1, h.2, own.length, Sql.countDistinct (own.map fun r => .integer r.2))] := by
  unfold panelJoin
  simp only
  rw [List.flatMap_def, List.flatMap_def]
  refine congrArg List.flatten (List.map_congr_left fun h hh => ?_)
  by_cases hnull : h.2 = .null
  · have hnone : rows.filter (fun r => Value.same r.1 h.2) = [] :=
      List.filter_eq_nil_iff.2 fun r _ => by rw [hnull, Value.same_null]; exact Bool.false_ne_true
    rw [hnone, if_pos rfl, List.filter_eq_nil_iff.2 fun g _ => by simp [hnull], List.map_nil]
  have hsame : ∀ r : Value × Int, Value.same r.1 h.2 = true ↔ r.1.key = h.2.key := fun r =>
    Value.same_iff.trans (and_iff_right_of_imp fun he hr => hnull (by
      rw [hr] at he
      exact Value.key_eq_null.1 he.symm))
  -- no row of the rank is left out by the ranks that were found
  have hown : (rows.filter fun r => hit.any fun h => Value.same r.1 h.2).filter
      (fun r => Value.same r.1 h.2) = rows.filter fun r => Value.same r.1 h.2 := by
    rw [List.filter_filter]
    refine List.filter_congr fun r _ => ?_
    by_cases hr : Value.same r.1 h.2 = true
    · rw [hr, Bool.true_and]
      exact List.any_eq_true.2 ⟨h, hh, hr⟩
    · rw [Bool.not_eq_true] at hr
      rw [hr, Bool.false_and]
  rw [filter_groupByKey (fun g => decide_eq_true_iff.trans (and_iff_right hnull))
    fun r _ => hsame r, hown]
  split <;> rfl

/-- What the membership half says of a name. -/
def memberStatus (s : Snapshot) (w : Bytes) : Option PanelFileStatus :=
  match s.panelHits w with
  | .integer rank :: _ =>
    let own := s.rowsOfRank (.integer rank)
    if own = [] then none
    else some (s.rankStatus rank own.length (Sql.countDistinct (own.map fun r => .integer r.2)))
  | _ => none

/-- A name stands in one rank at most. -/
def OneRank (s : Snapshot) (w : Bytes) : Prop :=
  s.panelHits w = [] ∨ ∃ rank, s.panelHits w = [.integer rank]

theorem readMembership_eq : ∀ {want : List Bytes} {out : Panel},
    (∀ w ∈ want, isUtf8 w = true) → (∀ w ∈ want, s.OneRank w) →
    s.readMembership ((want.flatMap fun w => (s.panelHits w).map fun rank => (w, rank)).flatMap
      fun h => let own := s.rowsOfRank h.2
        if own = [] then []
        else [(.text h.1, h.2, own.length, Sql.countDistinct (own.map fun r => .integer r.2))])
      out =
      .ok (want.foldl (fun out w => Panel.at (withStatus (s.memberStatus w)) (pathOf w) out) out)
  | [], out, _, _ => rfl
  | w :: want, out, hutf, hone => by
    have htext := getText_utf8 (hutf w List.mem_cons_self)
    have hrest := fun out => @readMembership_eq want out
      (fun v hv => hutf v (List.mem_cons_of_mem w hv))
      (fun v hv => hone v (List.mem_cons_of_mem w hv))
    rw [List.flatMap_cons, List.flatMap_append, List.foldl_cons]
    rcases hone w List.mem_cons_self with hnone | ⟨rank, hrank⟩
    · have hstatus : s.memberStatus w = none := by
        unfold memberStatus
        rw [hnone]
      rw [hnone, hstatus, at_withStatus_none]
      exact hrest out
    · have hstatus : s.memberStatus w = if s.rowsOfRank (.integer rank) = [] then none
          else some (s.rankStatus rank (s.rowsOfRank (.integer rank)).length
            (Sql.countDistinct ((s.rowsOfRank (.integer rank)).map fun r => .integer r.2))) := by
        unfold memberStatus
        rw [hrank]
      rw [hrank, hstatus, List.map_singleton, List.flatMap_singleton]
      simp only
      by_cases hown : s.rowsOfRank (.integer rank) = []
      · rw [if_pos hown, if_pos hown, at_withStatus_none]
        exact hrest out
      · rw [if_neg hown, if_neg hown, List.singleton_append]
        unfold readMembership
        rw [htext]
        simp only [getInteger]
        exact hrest _

/-! ## A batch, name by name -/

/-- What a batch knows of a name. -/
def panelAnswer (s : Snapshot) (w : Bytes) : Option PanelFile :=
  withStatus (s.candidateStatus w)
    (withStatus (if s.mode = .unknown then none else s.memberStatus w) (some (s.manifestFile w)))

/-- **A batch is the answers of its names**, and has no others. -/
theorem panelFiles_eq (hkeyed : s.tables.Keyed) {paths : List PathBuf}
    (hone : s.mode ≠ .unknown → ∀ p ∈ paths, s.OneRank p.text) :
    ∃ out, s.panelFiles paths = .ok out ∧
      (∀ p ∈ paths, SpelledAlike (paths.map PathBuf.text) p.text →
        out (pathOf p.text) = s.panelAnswer p.text) ∧
      ∀ key, (out key).isSome = true ↔ ∃ p ∈ paths, pathOf p.text = key := by
  have hutf : ∀ w ∈ paths.map PathBuf.text, isUtf8 w = true := by
    intro w hw
    obtain ⟨p, -, rfl⟩ := List.mem_map.1 hw
    exact isUtf8_lossyUtf8 p.raw
  let manifest := (paths.map PathBuf.text).foldl
    (fun out w => Panel.at (fun _ => some (s.manifestFile w)) (pathOf w) out) fun _ => none
  let members := (paths.map PathBuf.text).foldl (fun out w =>
    Panel.at (withStatus (if s.mode = .unknown then none else s.memberStatus w)) (pathOf w) out)
    manifest
  let candidates := (paths.map PathBuf.text).foldl
    (fun out w => Panel.at (withStatus (s.candidateStatus w)) (pathOf w) out) members
  have hmembers : (if s.mode = .unknown then .ok manifest
      else s.readMembership (s.panelMembership (paths.map PathBuf.text)) manifest) =
        (.ok members : Except String Panel) := by
    by_cases hmode : s.mode = .unknown
    · simp only [members, if_pos hmode, at_withStatus_none, List.foldl_fixed]
    · simp only [members, if_neg hmode]
      unfold panelMembership
      rw [panelJoin_eq]
      refine readMembership_eq hutf fun w hw => ?_
      obtain ⟨p, hp, rfl⟩ := List.mem_map.1 hw
      exact hone hmode p hp
  refine ⟨candidates, ?_, fun p hp hspelled => ?_, fun key => ?_⟩
  · unfold panelFiles
    simp only
    rw [readManifest_eq hkeyed hutf]
    simp only
    rw [hmembers]
    simp only
    rw [readCandidates_eq hkeyed hutf]
  · have hw : p.text ∈ paths.map PathBuf.text := List.mem_map.2 ⟨p, hp, rfl⟩
    have hfirst : manifest (pathOf p.text) = some (s.manifestFile p.text) :=
      foldl_asked (g := fun w _ => some (s.manifestFile w)) (fun _ _ => rfl) hw hspelled
    have hsecond : members (pathOf p.text) =
        withStatus (if s.mode = .unknown then none else s.memberStatus p.text)
          (manifest (pathOf p.text)) :=
      foldl_asked (g := fun w =>
        withStatus (if s.mode = .unknown then none else s.memberStatus w))
        (fun _ o => withStatus_twice _ o) hw hspelled
    have hthird : candidates (pathOf p.text) =
        withStatus (s.candidateStatus p.text) (members (pathOf p.text)) :=
      foldl_asked (g := fun w => withStatus (s.candidateStatus w))
        (fun _ o => withStatus_twice _ o) hw hspelled
    exact hthird.trans (congrArg _ (hsecond.trans (congrArg _ hfirst)))
  · have hsecond : (members key).isSome = (manifest key).isSome :=
      foldl_isSome_same (g := fun w =>
        withStatus (if s.mode = .unknown then none else s.memberStatus w))
        fun _ o => withStatus_isSome _ o
    have hthird : (candidates key).isSome = (members key).isSome :=
      foldl_isSome_same (g := fun w => withStatus (s.candidateStatus w))
        fun _ o => withStatus_isSome _ o
    rw [hthird, hsecond]
    constructor
    · intro h
      by_contra hnone
      have hother : manifest key = none := foldl_other fun w hw he => by
        obtain ⟨p, hp, rfl⟩ := List.mem_map.1 hw
        exact hnone ⟨p, hp, he⟩
      rw [hother] at h
      cases h
    · rintro ⟨p, hp, he⟩
      exact foldl_isSome_asked (g := fun w _ => some (s.manifestFile w)) (fun _ _ => rfl)
        (.inl ⟨p.text, List.mem_map.2 ⟨p, hp, rfl⟩, he⟩)

/-! ## Under a validated authority -/

/-- The joined rows of one key are those of its rows. -/
theorem filter_flatMap_keyed {α β : Type} {key : α → Value} {f : α → List β} {column : β → Int}
    (v : Value) : ∀ l : List α,
      ((l.flatMap fun a => (f a).map fun b => (key a, column b)).filter fun r =>
        Value.same r.1 v).length = ((l.filter fun a => Value.same (key a) v).flatMap f).length
  | [] => rfl
  | a :: l => by
    rw [List.flatMap_cons, List.filter_append, List.length_append, filter_flatMap_keyed v l,
      List.filter_map, List.length_map]
    by_cases h : Value.same (key a) v = true
    · have hall : (f a).filter ((fun r : Value × Int => Value.same r.1 v) ∘
          fun b => (key a, column b)) = f a := List.filter_eq_self.2 fun b _ => h
      rw [List.filter_cons_of_pos (p := fun a => Value.same (key a) v) h, List.flatMap_cons,
        List.length_append, hall]
    · have hnone : (f a).filter ((fun r : Value × Int => Value.same r.1 v) ∘
          fun b => (key a, column b)) = [] := List.filter_eq_nil_iff.2 fun b _ => h
      rw [List.filter_cons_of_neg (p := fun a => Value.same (key a) v) h, hnone]
      exact Nat.zero_add _

/-- A list without two elements of one key has one element at most under each. -/
theorem length_filter_key {β : Type} {column : β → Value} {l : List β} (v : Value)
    (h : (l.map fun b => (column b).key).Nodup) :
    l.filter (fun b => Value.same (column b) v) = [] ∨
      ∃ b ∈ l, l.filter (fun b => Value.same (column b) v) = [b] ∧
        Value.same (column b) v = true := by
  rcases hfilter : l.filter (fun b => Value.same (column b) v) with _ | ⟨b, rest⟩
  · exact .inl rfl
  have hb := List.mem_filter.1 (hfilter ▸ List.mem_cons_self : b ∈ l.filter _)
  have hpair : l.Pairwise fun a b => Value.same (column a) (column b) = false := by
    rw [List.Nodup, List.pairwise_map] at h
    exact h.imp fun hne => by
      rw [← Bool.not_eq_true]
      exact fun hsame => hne (Value.same_iff.1 hsame).2
  have hone := (filter_key_unique hpair (hfilter ▸ List.mem_cons_self : b ∈ l.filter _)).1
  rw [hfilter] at hone
  exact .inr ⟨b, hb.1, hone, hb.2⟩

section Valid

variable (hkeyed : s.tables.Keyed)
  (hvalid : Validated s.tables s.scanId s.mode s.generation s.inconsistentRanks)

include hvalid in
theorem summary_domain {g : GroupRow} (hg : g ∈ s.tables.fileGroup) :
    (∃ rank, g.rank = .integer rank ∧ 0 ≤ rank) ∧ badHash g.hash = false := by
  have hcells := hvalid.domains g hg
  simp only [GroupRow.cells, List.forall_mem_cons] at hcells
  exact ⟨badCount_eq_false hcells.1, hcells.2.1⟩

include hvalid in
/-- No summary is under the empty digest. -/
theorem no_empty_digest (f : FileRow) (hnull : f.hash = .null) :
    s.tables.fileGroup.filter (fun g => Value.same g.hash (.text (Sql.lowerHex f.hash))) = [] := by
  refine List.filter_eq_nil_iff.2 fun g hg hsame => ?_
  rw [Value.same_text] at hsame
  have hdomain := (summary_domain hvalid hg).2
  rw [hsame, hnull] at hdomain
  exact absurd hdomain (by decide)

include hkeyed hvalid

/-- A name that no rank was found for, or a rank of the store that its manifest row carries the
    digest of. -/
theorem panelHits_cases (hmode : s.mode ≠ .unknown) (w : Bytes) : s.panelHits w = [] ∨
    ∃ rank, s.panelHits w = [.integer rank] ∧ 0 ≤ rank ∧
      ((∃ m ∈ s.tables.membersAt (.integer rank), m.path = .text w) ∨
        s.mode = .derived ∧ ∃ f ∈ s.tables.filesAt (.text w),
          ∃ g ∈ s.tables.groupsAt (.integer rank), g.hash = .text (Sql.lowerHex f.hash)) := by
  unfold panelHits
  cases hm : s.mode with
  | unknown => exact absurd hm hmode
  | explicit =>
    have hshape := validateStructure_explicit.1 (hm ▸ hvalid.shape)
    have hpaths : (s.tables.member.map fun m => m.path.key).Nodup := by
      have := Sql.repeated_eq_zero.1 hshape.paths
      rwa [List.map_map] at this
    simp only
    rcases @length_filter_key _ MemberRow.path _ (.text w) hpaths with
      hnone | ⟨m, hm, hone, hsame⟩
    · exact .inl (by rw [hnone]; rfl)
    · have hcell := hshape.cells m hm
      unfold memberOffence at hcell
      simp only [Bool.or_eq_false_iff] at hcell
      obtain ⟨rank, hrank, hpos⟩ := badCount_eq_false hcell.1.2
      refine .inr ⟨rank, by rw [hone, List.map_singleton, hrank], hpos, .inl ⟨m, ?_, ?_⟩⟩
      · exact List.mem_filter.2 ⟨hm, by rw [hrank, Value.same_integer]⟩
      · exact Value.same_text.1 hsame
  | derived =>
    have hhashes := (validateStructure_derived.1 (hm ▸ hvalid.shape)).2
    rw [Sql.repeated_eq_zero, List.map_map] at hhashes
    simp only
    rcases filesAt_cases hkeyed (.text w) with hnone | ⟨f, hone⟩
    · exact .inl (by rw [hnone]; rfl)
    rw [hone]
    by_cases hnull : f.hash = .null
    · exact .inl (by simp [hnull])
    rw [List.filter_cons_of_pos (by simpa using hnull), List.filter_nil, List.flatMap_singleton]
    rcases @length_filter_key _ GroupRow.hash _ (.text (Sql.lowerHex f.hash)) hhashes with
      hnone | ⟨g, hg, hgroup, hsame⟩
    · exact .inl (by rw [hnone]; rfl)
    · obtain ⟨rank, hrank, hpos⟩ := (summary_domain hvalid hg).1
      refine .inr ⟨rank, by rw [hgroup, List.map_singleton, hrank], hpos, .inr ⟨trivial, f,
        List.mem_singleton.2 rfl, g, ?_, Value.same_text.1 hsame⟩⟩
      exact List.mem_filter.2 ⟨hg, by rw [hrank, Value.same_integer]⟩

/-- A name without a digest is found in no rank. -/
theorem panelHits_undigested (hmode : s.mode ≠ .unknown) {w : Bytes}
    (hnone : ∀ f ∈ s.tables.filesAt (.text w), f.hash = .null) : s.panelHits w = [] := by
  rcases panelHits_cases hkeyed hvalid hmode w with hnil | ⟨rank, hrank, -, hin | ⟨hmode', -⟩⟩
  · exact hnil
  · obtain ⟨m, hm, hpath⟩ := hin
    have hmember := mem_of_membersAt hm
    cases hm' : s.mode with
    | unknown => exact absurd hm' hmode
    | explicit =>
      have hshape := validateStructure_explicit.1 (hm' ▸ hvalid.shape)
      obtain ⟨f, hf⟩ := List.exists_mem_of_ne_nil _ (hshape.manifest m hmember)
      obtain ⟨g, hg⟩ := List.exists_mem_of_ne_nil _ (hshape.summaries m hmember)
      obtain ⟨d, hd, -⟩ := hshape.digests m hmember g hg f hf
      rw [hpath] at hf
      rw [hnone f hf] at hd
      cases hd
    | derived =>
      rw [(validateStructure_derived.1 (hm' ▸ hvalid.shape)).1] at hmember
      cases hmember
  · unfold panelHits
    rw [hmode']
    simp only
    rw [List.filter_eq_nil_iff.2 fun f hf => by simp [hnone f hf]]
    rfl

/-- The rows of a rank are as many as its members. -/
theorem length_rowsOfRank (hmode : s.mode ≠ .unknown) (rank : Int) :
    (s.rowsOfRank (.integer rank)).length = match s.mode with
      | .explicit => (s.tables.membersAt (.integer rank)).length
      | _ => ((s.tables.groupsAt (.integer rank)).flatMap fun g => s.tables.filesOf g.hash).length := by
  unfold rowsOfRank panelRows
  cases hm : s.mode with
  | unknown => exact absurd hm hmode
  | explicit =>
    have hshape := validateStructure_explicit.1 (hm ▸ hvalid.shape)
    refine (filter_flatMap_keyed (.integer rank) s.tables.member).trans ?_
    exact length_flatMap_one fun m hm =>
      hshape.filesAt_length hkeyed m (List.mem_filter.1 hm).1
  | derived => exact filter_flatMap_keyed (.integer rank) s.tables.fileGroup

/-- A rank that a digest was found in has rows. -/
theorem rowsOfRank_ne_nil (hmode : s.mode ≠ .unknown) {w : Bytes} {rank : Int}
    (hhit : s.panelHits w = [.integer rank])
    (hblob : ∀ f ∈ s.tables.filesAt (.text w), f.hash = .null ∨ ∃ d, f.hash = .blob d) :
    s.rowsOfRank (.integer rank) ≠ [] := by
  rw [← List.length_pos_iff, length_rowsOfRank hkeyed hvalid hmode]
  rcases panelHits_cases hkeyed hvalid hmode w with
    hnil | ⟨rank', hrank, -, ⟨m, hm, -⟩ | ⟨hmode', f, hf, g, hg, hdigest⟩⟩
  · rw [hnil] at hhit
    cases hhit
  · rw [hrank] at hhit
    cases hhit
    cases hm' : s.mode with
    | unknown => exact absurd hm' hmode
    | explicit => exact List.length_pos_of_mem hm
    | derived =>
      have hmember := mem_of_membersAt hm
      rw [(validateStructure_derived.1 (hm' ▸ hvalid.shape)).1] at hmember
      cases hmember
  · rw [hrank] at hhit
    cases hhit
    rw [hmode']
    have hdigested : f.hash ≠ .null := fun hnull => by
      have hdomain := (summary_domain hvalid (List.mem_filter.1 hg).1).2
      rw [hdigest, hnull] at hdomain
      exact absurd hdomain (by decide)
    obtain ⟨d, hd⟩ := (hblob f hf).resolve_left hdigested
    refine List.length_pos_of_mem (a := f) (List.mem_flatMap.2 ⟨g, hg, List.mem_filter.2
      ⟨(List.mem_filter.1 hf).1, ?_⟩⟩)
    rw [hdigest, hd]
    show Value.same (.blob d) (Sql.unhex (.text (Sql.hexText d))) = true
    rw [Sql.unhex_hexText]
    exact Value.same_blob.2 rfl

omit hkeyed in
/-- One pathname alone finds the ranks that a batch finds for it. -/
theorem ranksOfPath_eq (hmode : s.mode = .derived) (w : Bytes) :
    s.ranksOfPath w = (s.panelHits w).take 2 := by
  unfold ranksOfPath panelHits
  rw [hmode, List.map_flatMap]
  simp only
  refine congrArg (List.take 2) ?_
  generalize s.tables.filesAt (.text w) = fs
  induction fs with
  | nil => rfl
  | cons f fs ih =>
    rw [List.flatMap_cons, ih]
    by_cases hnull : f.hash = .null
    · rw [List.filter_cons_of_neg (by simpa using hnull), no_empty_digest hvalid f hnull]
      rfl
    · rw [List.filter_cons_of_pos (by simpa using hnull), List.flatMap_cons]

omit hkeyed in
theorem groupOfPath_eq (hmode : s.mode ≠ .unknown) {p : PathBuf} (hutf : isUtf8 p.raw = true) :
    (s.panelHits p.text = [] → s.groupOfPath p = .ok none) ∧
      ∀ rank, s.panelHits p.text = [.integer rank] → s.groupOfPath p = s.idOfRank rank := by
  have hauthority : s.requireAuthority = .ok () := if_neg hmode
  unfold groupOfPath
  rw [if_neg (by rw [hutf]; decide), hauthority]
  cases hm : s.mode with
  | unknown => exact absurd hm hmode
  | derived =>
    simp only
    rw [ranksOfPath_eq hvalid hm]
    refine ⟨fun h => by rw [h]; rfl, fun rank h => by rw [h]; rfl⟩
  | explicit =>
    unfold panelHits
    rw [hm]
    simp only
    refine ⟨fun h => ?_, fun rank h => ?_⟩
    · rw [List.map_eq_nil_iff.1 h]
      rfl
    · obtain ⟨m, hm, hrank⟩ := List.map_eq_singleton_iff.1 h
      rw [hm]
      simp only [List.head?_cons, hrank]
      rfl

/-- The count of a rank that was found is the count of its rows. -/
theorem groupMemberCount_eq (hmode : s.mode ≠ .unknown) {rank : Int} (hpos : 0 ≤ rank)
    (hconsistent : rank ∉ s.inconsistentRanks) :
    s.groupMemberCount ⟨s.scanId, rank, s.generation⟩ =
      .ok (s.rowsOfRank (.integer rank)).length := by
  have hcurrent : s.requireCurrent ⟨s.scanId, rank, s.generation⟩ = .ok () := by
    unfold requireCurrent requireAuthority requireConsistent
    rw [if_neg hmode]
    simp only
    rw [if_neg (by simpa using hpos), if_neg (not_not.2 rfl), if_neg hconsistent]
  rw [length_rowsOfRank hkeyed hvalid hmode]
  unfold groupMemberCount
  rw [hcurrent]
  cases s.mode <;> rfl

end Valid

/-! ## One pathname against its answer -/

/-- What a pathname without a digest says of its group. -/
def withoutGroup (s : Snapshot) {α : Type} (none : α) : Except MembershipMiss α :=
  if s.mode = .unknown then .error .unknown else .ok none

/-- **An answer of a batch says what `file_info` and `group_of_path` say of its pathname alone.** -/
inductive AnswersAlike (s : Snapshot) (p : PathBuf) : PanelFile → Prop where
  | notInScan (hinfo : s.fileInfo p = .ok .notInScan)
      (hgroup : s.groupOfPath p = s.withoutGroup none) : AnswersAlike s p ⟨.notInScan, none⟩
  | notHashed {status : PanelFileStatus}
      (hstatus : status = .notHashed ∨ ∃ peers, status = .likelyBySizeMtime peers)
      (hinfo : s.fileInfo p = .ok (.inScan none (s.withoutGroup .notGrouped)))
      (hgroup : s.groupOfPath p = s.withoutGroup none) : AnswersAlike s p ⟨status, none⟩
  | unknown {digest : Bytes} (hinfo : s.fileInfo p = .ok (.inScan (some digest) (.error .unknown)))
      (hgroup : s.groupOfPath p = .error .unknown) :
      AnswersAlike s p ⟨.unavailable .unknown, some digest⟩
  | inconsistent {digest : Bytes} {detail : String}
      (hinfo : s.fileInfo p = .ok (.inScan (some digest) (.error (.inconsistent detail))))
      (hgroup : s.groupOfPath p = .error (.inconsistent detail)) :
      AnswersAlike s p ⟨.unavailable (.inconsistent detail), some digest⟩
  | notGrouped {digest : Bytes}
      (hinfo : s.fileInfo p = .ok (.inScan (some digest) (.ok .notGrouped)))
      (hgroup : s.groupOfPath p = .ok none) : AnswersAlike s p ⟨.notGrouped, some digest⟩
  | inGroup {digest : Bytes} {id : GroupId} {members devices : Nat}
      {membership : Except MembershipMiss FileMembership}
      (hinfo : s.fileInfo p = .ok (.inScan (some digest) membership))
      (hmembership : (∃ info, membership = .ok (.inGroup info) ∧ info.id = id ∧
        info.total = members) ∨ ∃ e, membership = .error (.store e) ∧
          readPaths (((s.memberRows id.rank).map FileRow.path).take (fileInfoPeerCap + 1)) = .error e)
      (hgroup : s.groupOfPath p = .ok (some id)) (hcount : s.groupMemberCount id = .ok members) :
      AnswersAlike s p ⟨.inGroup id members devices, some digest⟩

theorem fileMembership_unknown (hmode : s.mode = .unknown) (p : PathBuf) :
    s.fileMembership p = .error .unknown := by
  unfold fileMembership requireAuthority
  rw [if_pos hmode]

theorem groupOfPath_unknown (hmode : s.mode = .unknown) {p : PathBuf} (hutf : isUtf8 p.raw = true) :
    s.groupOfPath p = .error .unknown := by
  unfold groupOfPath requireAuthority
  rw [if_neg (by rw [hutf]; decide), if_pos hmode]

theorem fileMembership_of_none (hmode : s.mode ≠ .unknown) {p : PathBuf}
    (hgroup : s.groupOfPath p = .ok none) : s.fileMembership p = .ok .notGrouped := by
  unfold fileMembership requireAuthority
  rw [if_neg hmode, hgroup]

theorem fileMembership_of_error (hmode : s.mode ≠ .unknown) {p : PathBuf} {e : MembershipMiss}
    (hgroup : s.groupOfPath p = .error e) : s.fileMembership p = .error e := by
  unfold fileMembership requireAuthority
  rw [if_neg hmode, hgroup]

theorem fileMembership_of_group (hmode : s.mode ≠ .unknown) {p : PathBuf} {id : GroupId}
    {members : Nat} (hgroup : s.groupOfPath p = .ok (some id))
    (hcount : s.groupMemberCount id = .ok members) :
    (∃ info, s.fileMembership p = .ok (.inGroup info) ∧ info.id = id ∧ info.total = members) ∨
      ∃ e, s.fileMembership p = .error (.store e) ∧
        readPaths (((s.memberRows id.rank).map FileRow.path).take (fileInfoPeerCap + 1)) =
          .error e := by
  unfold fileMembership requireAuthority
  rw [if_neg hmode, hgroup]
  simp only [hcount]
  split
  · rename_i e he
    exact .inr ⟨e, rfl, he⟩
  · exact .inl ⟨_, rfl, rfl, rfl⟩

theorem fileInfo_of_row {p : PathBuf} {f : FileRow} (hutf : isUtf8 p.raw = true)
    (hone : s.tables.filesAt (.text p.text) = [f]) :
    s.fileInfo p = .ok (.inScan (shownDigest f) (s.fileMembership p)) := by
  unfold fileInfo
  rw [if_neg (by rw [hutf]; decide), hone, List.head?_cons]
  simp only [getOptText_digestText]

theorem withoutGroup_known (hmode : s.mode ≠ .unknown) {α : Type} (none : α) :
    s.withoutGroup none = .ok none := if_neg hmode

theorem withoutGroup_unknown (hmode : s.mode = .unknown) {α : Type} (none : α) :
    s.withoutGroup none = .error .unknown := if_pos hmode

section Alike

variable (hkeyed : s.tables.Keyed) (hvalid : s.mode ≠ .unknown →
  Validated s.tables s.scanId s.mode s.generation s.inconsistentRanks)

include hkeyed hvalid

/-- What a pathname without a digest answers alone. -/
theorem undigested_alone {p : PathBuf} (hutf : isUtf8 p.raw = true)
    (hnone : ∀ f ∈ s.tables.filesAt (.text p.text), f.hash = .null) :
    s.groupOfPath p = s.withoutGroup none ∧ s.fileMembership p = s.withoutGroup .notGrouped ∧
      (if s.mode = .unknown then none else s.memberStatus p.text) = none := by
  by_cases hmode : s.mode = .unknown
  · rw [withoutGroup_unknown hmode, withoutGroup_unknown hmode, if_pos hmode]
    exact ⟨groupOfPath_unknown hmode hutf, fileMembership_unknown hmode p, rfl⟩
  · have hhits := panelHits_undigested hkeyed (hvalid hmode) hmode hnone
    have hgroup := (groupOfPath_eq (hvalid hmode) hmode hutf).1 hhits
    rw [withoutGroup_known hmode, withoutGroup_known hmode, if_neg hmode]
    refine ⟨hgroup, fileMembership_of_none hmode hgroup, ?_⟩
    unfold memberStatus
    rw [hhits]

/-- A pathname with a digest, under an authority. -/
theorem digested_alike (hmode : s.mode ≠ .unknown) {p : PathBuf} (hutf : isUtf8 p.raw = true)
    {f : FileRow} (hone : s.tables.filesAt (.text p.text) = [f]) {digest d : Bytes}
    (hshown : shownDigest f = some digest) (hblob : f.hash = .blob d) :
    ∃ answer, withStatus (s.memberStatus p.text) (some ⟨.notGrouped, some digest⟩) = some answer ∧
      s.AnswersAlike p answer := by
  have hinfo := fileInfo_of_row hutf hone
  rw [hshown] at hinfo
  have hgroup := groupOfPath_eq (hvalid hmode) hmode hutf
  rcases panelHits_cases hkeyed (hvalid hmode) hmode p.text with hnil | ⟨rank, hrank, hpos, -⟩
  · have halone := hgroup.1 hnil
    rw [fileMembership_of_none hmode halone] at hinfo
    refine ⟨⟨.notGrouped, some digest⟩, ?_, .notGrouped hinfo halone⟩
    unfold memberStatus
    rw [hnil]
    rfl
  have hrows := rowsOfRank_ne_nil hkeyed (hvalid hmode) hmode hrank fun f' hf' => by
    rw [hone] at hf'
    exact .inr ⟨d, by rw [List.mem_singleton.1 hf', hblob]⟩
  have halone := hgroup.2 rank hrank
  have hstatus : ∃ devices, s.memberStatus p.text =
      some (s.rankStatus rank (s.rowsOfRank (.integer rank)).length devices) := by
    unfold memberStatus
    rw [hrank]
    simp only
    rw [if_neg hrows]
    exact ⟨_, rfl⟩
  obtain ⟨devices, hstatus⟩ := hstatus
  rw [hstatus]
  unfold idOfRank requireConsistent at halone
  unfold rankStatus
  by_cases hinconsistent : rank ∈ s.inconsistentRanks
  · rw [if_pos hinconsistent] at halone ⊢
    rw [fileMembership_of_error hmode halone] at hinfo
    exact ⟨_, rfl, .inconsistent hinfo halone⟩
  · rw [if_neg hinconsistent] at halone ⊢
    have hcount := groupMemberCount_eq hkeyed (hvalid hmode) hmode hpos hinconsistent
    exact ⟨_, rfl, .inGroup hinfo (fileMembership_of_group hmode halone hcount) halone hcount⟩

theorem panelAnswer_alike {p : PathBuf} (hutf : isUtf8 p.raw = true)
    (hblob : ∀ f ∈ s.tables.filesAt (.text p.text), f.hash = .null ∨ ∃ d, f.hash = .blob d) :
    ∃ answer, s.panelAnswer p.text = some answer ∧ s.AnswersAlike p answer := by
  unfold panelAnswer candidateStatus manifestFile
  rcases filesAt_cases hkeyed (.text p.text) with hnone | ⟨f, hone⟩
  · obtain ⟨hgroup, -, hstatus⟩ := undigested_alone hkeyed hvalid hutf
      (fun f hf => by rw [hnone] at hf; cases hf)
    rw [hnone, hstatus]
    refine ⟨_, rfl, .notInScan ?_ hgroup⟩
    unfold fileInfo
    rw [if_neg (by rw [hutf]; decide), hnone]
    rfl
  have hinfo := fileInfo_of_row hutf hone
  rw [hone] at hblob ⊢
  simp only
  rcases hblob f List.mem_cons_self with hnull | ⟨d, hd⟩
  · obtain ⟨hgroup, hmembership, hstatus⟩ := undigested_alone hkeyed hvalid hutf
      (fun f' hf' => by rw [hone] at hf'; rw [List.mem_singleton.1 hf']; exact hnull)
    have hshown : shownDigest f = none := if_pos hnull
    rw [hshown, hmembership] at hinfo
    rw [hshown, hstatus]
    simp only [hnull, true_and]
    split
    · exact ⟨_, rfl, .notHashed (.inr ⟨_, rfl⟩) hinfo hgroup⟩
    · exact ⟨_, rfl, .notHashed (.inl rfl) hinfo hgroup⟩
  · have hdigested : f.hash ≠ .null := by rw [hd]; exact Value.noConfusion
    have hshown : shownDigest f = some (Sql.lowerHex f.hash) := if_neg hdigested
    rw [if_neg fun h => hdigested h.1, hshown]
    by_cases hmode : s.mode = .unknown
    · rw [if_pos hmode]
      rw [hshown, fileMembership_unknown hmode] at hinfo
      have hmanifest : s.manifestStatus true true = .unavailable .unknown := by
        unfold manifestStatus
        rw [hmode]
      refine ⟨_, rfl, ?_⟩
      show s.AnswersAlike p ⟨s.manifestStatus true true, _⟩
      rw [hmanifest]
      exact .unknown hinfo (groupOfPath_unknown hmode hutf)
    · rw [if_neg hmode]
      have hmanifest : s.manifestStatus true true = .notGrouped := by
        unfold manifestStatus
        cases hm : s.mode with
        | unknown => exact absurd hm hmode
        | _ => rfl
      obtain ⟨answer, hanswer, halike⟩ := digested_alike hkeyed hvalid hmode hutf hone hshown hd
      refine ⟨answer, ?_, halike⟩
      rw [← hanswer]
      show withStatus (s.memberStatus p.text) (some ⟨s.manifestStatus true true, _⟩) = _
      rw [hmanifest]

end Alike

end Snapshot

/-- The pathname that a batch asks for in a name's place. -/
def PathBuf.lossy (p : PathBuf) : PathBuf := ⟨p.text, zero_notMem_lossyUtf8 p.plain⟩

theorem PathBuf.lossy_of_isUtf8 {p : PathBuf} (h : isUtf8 p.raw = true) : p.lossy = p := by
  unfold PathBuf.lossy PathBuf.text
  cases p
  simp only [lossyUtf8_of_isUtf8 _ h]

theorem PathBuf.text_lossy (p : PathBuf) : p.lossy.text = p.text :=
  lossyUtf8_of_isUtf8 _ (isUtf8_lossyUtf8 p.raw)

/-- **A batch answers for each of its names what the readers of that name alone answer**, where it
    was asked for no other spelling of it: for a name that is not UTF-8 it is the answer of its lossy
    spelling, and the name itself has none. -/
theorem panel_agrees {db : Database} {scanId : Int} {s : Snapshot}
    (hkeyed : (db.tables scanId).Keyed) (hsnapshot : membershipSnapshot db scanId = .ok s)
    (paths : List PathBuf) :
    ∃ out, s.panelFiles paths = .ok out ∧
      (∀ key, (out key).isSome ↔ ∃ p ∈ paths, p.lossy.path = key) ∧
      (∀ p ∈ paths, SpelledAlike (paths.map PathBuf.text) p.text →
        (∀ f ∈ s.tables.filesAt (.text p.text), f.hash = .null ∨ ∃ d, f.hash = .blob d) →
        ∃ answer, out p.lossy.path = some answer ∧ s.AnswersAlike p.lossy answer) ∧
      (∀ p ∈ paths, isUtf8 p.raw = true → p.lossy = p) ∧
      ∀ p ∈ paths, isUtf8 p.raw = false →
        out p.path = none ∧ s.fileInfo p = .ok .nameNotUtf8 ∧ s.groupOfPath p = .ok none := by
  obtain ⟨htables, -, hvalid⟩ := membershipSnapshot_ok hsnapshot
  rw [← htables] at hkeyed
  have hone : s.mode ≠ .unknown → ∀ p ∈ paths, s.OneRank p.text := fun hmode p _ =>
    (Snapshot.panelHits_cases hkeyed (hvalid hmode) hmode p.text).imp id
      fun ⟨rank, hrank, _⟩ => ⟨rank, hrank⟩
  obtain ⟨out, hout, hasked, hkeys⟩ := Snapshot.panelFiles_eq hkeyed hone
  refine ⟨out, hout, hkeys, fun p hp hspelled hblob => ?_,
    fun p _ hutf => PathBuf.lossy_of_isUtf8 hutf, fun p _ hutf => ⟨?_, ?_, ?_⟩⟩
  · rw [← p.text_lossy] at hblob
    obtain ⟨answer, hanswer, halike⟩ := Snapshot.panelAnswer_alike hkeyed hvalid
      (p := p.lossy) (isUtf8_lossyUtf8 p.raw) hblob
    refine ⟨answer, ?_, halike⟩
    rw [← hanswer, p.text_lossy]
    exact hasked p hp hspelled
  · rw [← Option.not_isSome_iff_eq_none, hkeys]
    rintro ⟨q, -, hkey⟩
    have := isUtf8_of_pathOf_eq p.plain (zero_notMem_lossyUtf8 q.plain) (isUtf8_lossyUtf8 q.raw)
      hkey.symm
    rw [hutf] at this
    cases this
  · exact if_pos hutf
  · exact if_pos hutf

theorem plain_a : (0 : Byte) ∉ [47, 97] := by decide

theorem plain_double : (0 : Byte) ∉ [47, 47, 97] := by decide

theorem plain_ff : (0 : Byte) ∉ [47, 0xFF] := by decide

/-- `/a` -/
def askedPath : PathBuf := ⟨[47, 97], plain_a⟩

/-- `//a` -/
def doubledPath : PathBuf := ⟨[47, 47, 97], plain_double⟩

/-- A name that is not UTF-8, under the root. -/
def rawPath : PathBuf := ⟨[47, 0xFF], plain_ff⟩

/-- The two copies of `samplePublished`, as they are read. -/
def publishedScan : Snapshot := ⟨samplePublished.tables 1, 1, .explicit, 3, []⟩

theorem panel_agrees_sample : ∃ out,
    publishedScan.panelFiles [askedPath, rawPath] = .ok out ∧
      (∃ answer, out askedPath.path = some answer ∧
        publishedScan.AnswersAlike askedPath answer) ∧
      out rawPath.path = none := by
  obtain ⟨out, hout, -, halike, hlossy, hraw⟩ := @panel_agrees samplePublished 1 publishedScan
    ⟨by decide, by decide⟩ (by rfl) [askedPath, rawPath]
  have hasked := hlossy askedPath (by decide) (by decide)
  have hrow : publishedScan.tables.filesAt (.text askedPath.text) = [sampleFile 97] := rfl
  have := halike askedPath (by decide) (by unfold SpelledAlike; decide) fun f hf => by
    rw [hrow] at hf
    exact .inr ⟨_, by rw [List.mem_singleton.1 hf]; rfl⟩
  rw [hasked] at this
  exact ⟨out, hout, this, (hraw rawPath (by decide) (by decide)).1⟩

/-- A batch answers for each of its names what the readers of that name alone answer. -/
def Snapshot.AnswersEach (s : Snapshot) (paths : List PathBuf) : Prop :=
  ∃ out, s.panelFiles paths = .ok out ∧
    ∀ p ∈ paths, ∃ answer, out p.path = some answer ∧ s.AnswersAlike p answer

/-- The status that a batch has for a name. -/
def statusOf (answer : Except MembershipMiss Snapshot.Panel) (p : PathBuf) :
    Option PanelFileStatus :=
  match answer with
  | .error _ => none
  | .ok out => (out p.path).map PanelFile.status

/-- Two copies that nothing vouches for. -/
def sampleUnpublished : Database where
  hasScan := fun id => decide (id = 1)
  tables := fun _ =>
    { file := [sampleFile 97, sampleFile 98], fileGroup := [], member := [], membership := none,
      stats := none }

def unpublishedScan : Snapshot := ⟨sampleUnpublished.tables 1, 1, .unknown, 0, []⟩

/-- One manifest row whose digest is a text, and a group under the hexadecimal of it. -/
def sampleTextDigest : Database where
  hasScan := fun id => decide (id = 1)
  tables := fun _ =>
    { file := [{ sampleFile 97 with hash := .text (List.replicate 32 0xAA) }]
      fileGroup := [⟨1, .integer 0, .text (List.replicate 64 97), .integer 0, .integer 5, .integer 0,
        .integer 0, .integer 0⟩]
      member := []
      membership := some (.integer 1, .integer 3)
      stats := none }

def textDigestScan : Snapshot := ⟨sampleTextDigest.tables 1, 1, .derived, 3, []⟩

theorem status_of_answersEach {s : Snapshot} {paths : List PathBuf} {p : PathBuf}
    (h : s.AnswersEach paths) (hp : p ∈ paths) : ∃ answer,
      statusOf (s.panelFiles paths) p = some answer.status ∧ s.AnswersAlike p answer := by
  obtain ⟨out, hout, heach⟩ := h
  obtain ⟨answer, hanswer, halike⟩ := heach p hp
  refine ⟨answer, ?_, halike⟩
  unfold statusOf
  rw [hout]
  simp only [hanswer, Option.map_some]

/-- A name that is not UTF-8 has no answer, one of two spellings has the other's, and a digest that
    is stored as a text names a group that its file is no member of. -/
theorem not_panel_answers_each :
    (membershipSnapshot samplePublished 1 = .ok publishedScan ∧
        ¬publishedScan.AnswersEach [askedPath, rawPath]) ∧
      (membershipSnapshot sampleUnpublished 1 = .ok unpublishedScan ∧
        ¬unpublishedScan.AnswersEach [askedPath, doubledPath]) ∧
      membershipSnapshot sampleTextDigest 1 = .ok textDigestScan ∧
        ¬textDigestScan.AnswersEach [askedPath] := by
  refine ⟨⟨by rfl, fun h => ?_⟩, ⟨by rfl, fun h => ?_⟩, by rfl, fun h => ?_⟩
  · obtain ⟨answer, hstatus, -⟩ :=
      status_of_answersEach h (List.mem_cons_of_mem _ List.mem_cons_self)
    have hnone : statusOf (publishedScan.panelFiles [askedPath, rawPath]) rawPath = none := by rfl
    rw [hnone] at hstatus
    cases hstatus
  · obtain ⟨answer, hstatus, halike⟩ := status_of_answersEach h List.mem_cons_self
    have hfound : statusOf (unpublishedScan.panelFiles [askedPath, doubledPath]) askedPath =
        some .notInScan := by rfl
    have hinfo : ∃ digest, unpublishedScan.fileInfo askedPath =
        .ok (.inScan (some digest) (.error .unknown)) := ⟨_, by rfl⟩
    obtain ⟨digest, hinfo⟩ := hinfo
    rw [hfound] at hstatus
    cases halike with
    | notInScan halone => rw [hinfo] at halone; cases halone
    | notHashed hnot halone => rw [hinfo] at halone; cases halone
    | _ => cases hstatus
  · obtain ⟨answer, hstatus, halike⟩ := status_of_answersEach h List.mem_cons_self
    have hfound : statusOf (textDigestScan.panelFiles [askedPath]) askedPath =
        some .notGrouped := by rfl
    have hgroup : textDigestScan.groupOfPath askedPath = .ok (some ⟨1, 0, 3⟩) := by rfl
    rw [hfound] at hstatus
    cases halike with
    | notGrouped hinfo halone => rw [hgroup] at halone; cases halone
    | notHashed hnot hinfo =>
      obtain rfl | ⟨peers, rfl⟩ := hnot <;> cases hstatus
    | _ => cases hstatus

end DedupCommando
