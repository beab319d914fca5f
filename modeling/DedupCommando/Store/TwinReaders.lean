import DedupCommando.Lib.Runs
import DedupCommando.Store.DirGroupAt

/-!
# The twin readers agree

The list, the group of a signature and the group of a directory judge the same rows by the same
ledger, each filtering in a place of its own.

* `readDirRows_ok`, `readDirRows_signatureRows` — what one reader reads, another one reads too.
* `summariesOf_eq` — the fold over all rows closes one run for each signature.
* `TwinReadersAgree`, `TwinReadersSound`, `twin_readers_agree` — the three readers agree where every
  directory is stored under one signature.
-/

set_option autoImplicit false

namespace DedupCommando

open Sql (Value)

/-! ## Rows that read -/

theorem readDirRow_ok {r : DirRow} {e : DirEntry} (h : readDirRow r = .ok e) :
    r.signature = .text e.signature ∧ r.path = .text e.path ∧ isUtf8 e.path = true := by
  unfold readDirRow at h
  split at h
  · cases h
  · rename_i signature hs
    split at h
    · cases h
    · rename_i path hp
      split at h
      · cases h
      · split at h
        · cases h
        · cases h
          exact ⟨(getText_ok.1 hs).1, getText_ok.1 hp⟩

theorem readDirRows_ok : ∀ {rs : List DirRow} {es : List DirEntry},
    readDirRows rs = .ok es ↔ List.Forall₂ (fun r e => readDirRow r = .ok e) rs es
  | [], es => by simp [readDirRows, eq_comm]
  | r :: rs, es => by
    unfold readDirRows
    constructor
    · intro h
      split at h
      · cases h
      · rename_i e he
        split at h
        · cases h
        · rename_i es' hes
          cases h
          exact .cons he (readDirRows_ok.1 hes)
    · rintro (_ | ⟨he, hes⟩)
      simp only [he, readDirRows_ok.2 hes]

theorem readDirRows_perm {rs rs' : List DirRow} {es : List DirEntry} (hperm : rs'.Perm rs)
    (h : readDirRows rs = .ok es) : ∃ es', readDirRows rs' = .ok es' ∧ es'.Perm es := by
  obtain ⟨es', h₁, h₂⟩ := List.perm_comp_forall₂ hperm (readDirRows_ok.1 h)
  exact ⟨es', readDirRows_ok.2 h₁, h₂⟩

/-- Where all rows read, the rows of a signature read as the entries of that signature. -/
theorem readDirRows_signatureRows {rs dirs : List DirRow} {es : List DirEntry}
    (hperm : dirs.Perm rs) (h : readDirRows rs = .ok es) (signature : Bytes) :
    ∃ own, readDirRows (signatureRows dirs (.text signature)) = .ok own ∧
      own.Perm (Grouping.under DirEntry.signature signature es) := by
  have hrows : (signatureRows dirs (.text signature)).Perm
      (rs.filter fun r => Value.same r.signature (.text signature)) :=
    (Sql.orderBy_perm _ _).trans (hperm.filter _)
  refine readDirRows_perm hrows (readDirRows_ok.2 ?_)
  refine List.rel_filter ?_ (readDirRows_ok.1 h)
  intro r e he
  simp only [Value.same_text, (readDirRow_ok he).1, Value.text.injEq, decide_eq_true_eq]

/-- Every entry of the rows of a signature has it. -/
theorem signature_of_signatureRows {dirs : List DirRow} {signature : Value} {es : List DirEntry}
    (h : readDirRows (signatureRows dirs signature) = .ok es) :
    ∀ e ∈ es, Value.same (.text e.signature) signature = true := by
  intro e he
  obtain ⟨r, hr, hread⟩ := exists_of_forall₂_right (readDirRows_ok.1 h) e he
  rw [signatureRows, Sql.mem_orderBy, List.mem_filter] at hr
  rw [← (readDirRow_ok hread).1]
  exact hr.2

/-! ## Members -/

section Members

variable {ctx : Bytes → DirDisposition}

theorem mem_membersOf {es : List DirEntry} {m : Bytes × DirTrust} :
    m ∈ membersOf ctx es ↔ ∃ e ∈ es, e.path = m.1 ∧ memberTrustOf ctx m.1 = some m.2 := by
  obtain ⟨path, trust⟩ := m
  simp only [membersOf, List.mem_filterMap, Option.map_eq_some_iff, Prod.mk.injEq]
  constructor
  · rintro ⟨e, he, trust', ht, rfl, rfl⟩
    exact ⟨e, he, rfl, ht⟩
  · rintro ⟨e, he, rfl, ht⟩
    exact ⟨e, he, trust, ht, rfl, rfl⟩

theorem memberTrustOf_isSome {path : Bytes} :
    (memberTrustOf ctx path).isSome = true ↔ ctx path ≠ .suppressed := by
  unfold memberTrustOf
  cases ctx path <;> simp

theorem membersOf_cons (e : DirEntry) (es : List DirEntry) : membersOf ctx (e :: es) =
    (match memberTrustOf ctx e.path with
      | none => []
      | some trust => [(e.path, trust)]) ++ membersOf ctx es := by
  unfold membersOf
  rw [List.filterMap_cons]
  cases memberTrustOf ctx e.path <;> rfl

/-- The trust that a list of members has together. -/
def trustOf (members : List (Bytes × DirTrust)) : DirTrust :=
  if members.all fun m => decide (m.2 = .trusted) then .trusted else .untrusted

theorem trustOf_perm {l m : List (Bytes × DirTrust)} (h : l.Perm m) : trustOf l = trustOf m := by
  unfold trustOf
  rw [h.all_eq]

theorem groupOf_eq_some {es : List DirEntry} {g : AttributedDirGroup} (h : groupOf ctx es = some g) :
    2 ≤ (membersOf ctx es).length ∧ g.group.paths = (membersOf ctx es).map Prod.fst ∧
      g.memberTrust = (membersOf ctx es).map Prod.snd ∧ g.trust = trustOf (membersOf ctx es) := by
  unfold groupOf at h
  split at h
  · cases h
  · simp only at h
    split at h
    · cases h
    · rename_i hlen
      cases h
      exact ⟨not_lt.1 hlen, rfl, rfl, rfl⟩

theorem groupOf_isSome {es : List DirEntry} :
    (∃ g, groupOf ctx es = some g) ↔ 2 ≤ (membersOf ctx es).length := by
  constructor
  · rintro ⟨g, h⟩
    exact (groupOf_eq_some h).1
  · intro h
    unfold groupOf
    split
    · exact absurd h (by simp [membersOf])
    · simp only [if_neg (not_lt.2 h), Option.some.injEq, exists_eq']

end Members

/-! ## The fold over all signatures -/

section Fold

variable {ctx : Bytes → DirDisposition}

/-- The run that the rows of one signature leave open. -/
def runOf (ctx : Bytes → DirDisposition) : List DirEntry → Option SignatureRun
  | [] => none
  | e :: es => some ((e :: es).foldl (SignatureRun.take ctx) (SignatureRun.opened e))

theorem take_signature (run : SignatureRun) (e : DirEntry) :
    (run.take ctx e).signature = run.signature := by
  unfold SignatureRun.take
  split <;> rfl

/-- What a run is after its rows. -/
theorem foldl_take (es : List DirEntry) {run : SignatureRun} (hrun : run.survivors < 2 ^ 32) :
    es.foldl (SignatureRun.take ctx) run =
      { run with
        survivors := (run.survivors + (membersOf ctx es).length) % 2 ^ 32
        anyUntrusted := run.anyUntrusted ||
          (membersOf ctx es).any fun m => decide (m.2 = .untrusted) } := by
  induction es generalizing run with
  | nil =>
    cases run
    simp only [List.foldl_nil, membersOf, List.filterMap_nil, List.length_nil, Nat.add_zero,
      Nat.mod_eq_of_lt hrun, List.any_nil, Bool.or_false]
  | cons e es ih =>
    have hpos : (0 : ℕ) < 2 ^ 32 := Nat.two_pow_pos 32
    rw [List.foldl_cons, membersOf_cons]
    cases htrust : memberTrustOf ctx e.path with
    | none =>
      have htake : run.take ctx e = run := by simp only [SignatureRun.take, htrust]
      rw [htake]
      exact ih hrun
    | some trust =>
      have htake : run.take ctx e =
          { run with
            survivors := (run.survivors + 1) % 2 ^ 32
            anyUntrusted := run.anyUntrusted || decide (trust = .untrusted) } := by
        cases trust <;> simp [SignatureRun.take, htrust]
      rw [htake, ih (Nat.mod_lt _ hpos)]
      simp [Nat.add_assoc, Nat.add_comm 1, Bool.or_assoc]

/-- The rows of one signature keep its run open. -/
theorem foldl_foldRow_same (signature : Bytes) (out : List AttributedDirGroupSummary) :
    ∀ {es : List DirEntry} {run : SignatureRun}, run.signature = signature →
      (∀ e ∈ es, e.signature = signature) →
      es.foldl (foldRow ctx) (out, some run) = (out, some (es.foldl (SignatureRun.take ctx) run))
  | [], _, _, _ => rfl
  | e :: es, run, hrun, hes => by
    have he := hes e List.mem_cons_self
    have hstep : foldRow ctx (out, some run) e = (out, some (run.take ctx e)) := by
      unfold foldRow
      simp only [if_pos (hrun.trans he.symm)]
    rw [List.foldl_cons, hstep, foldl_foldRow_same signature out ((take_signature run e).trans hrun)
      fun e' he' => hes e' (List.mem_cons_of_mem _ he')]
    rfl

/-- The rows of a signature that is not open close the open run and open their own. -/
theorem foldl_foldRow_other {signature : Bytes} {out : List AttributedDirGroupSummary}
    {o : Option SignatureRun} {es : List DirEntry} (hne : es ≠ [])
    (ho : ∀ run ∈ o, run.signature ≠ signature) (hes : ∀ e ∈ es, e.signature = signature) :
    es.foldl (foldRow ctx) (out, o) = (out ++ SignatureRun.flush o, runOf ctx es) := by
  obtain ⟨e, es, rfl⟩ := List.exists_cons_of_ne_nil hne
  have he := hes e List.mem_cons_self
  have hstep : foldRow ctx (out, o) e =
      (out ++ SignatureRun.flush o, some ((SignatureRun.opened e).take ctx e)) := by
    unfold foldRow
    cases o with
    | none => simp [SignatureRun.flush]
    | some run =>
      have hrun : run.signature ≠ e.signature := fun h => ho run rfl (h.trans he)
      simp only [if_neg hrun]
  rw [List.foldl_cons, hstep, foldl_foldRow_same signature]
  · rfl
  · rw [take_signature]; exact he
  · exact fun e' he' => hes e' (List.mem_cons_of_mem _ he')

theorem signature_runOf {es : List DirEntry} {signature : Bytes}
    (hes : ∀ e ∈ es, e.signature = signature) : ∀ run ∈ runOf ctx es, run.signature = signature := by
  intro run hrun
  cases es with
  | nil => cases hrun
  | cons e es =>
    cases hrun
    rw [foldl_take _ (show (SignatureRun.opened e).survivors < 2 ^ 32 from Nat.two_pow_pos 32)]
    exact hes e List.mem_cons_self

/-- Lists of rows under distinct signatures close one run each. -/
theorem foldl_foldRow_groups : ∀ {gs : List (Bytes × List DirEntry)}
    {out : List AttributedDirGroupSummary} {o : Option SignatureRun},
    (gs.map Prod.fst).Nodup → (∀ g ∈ gs, g.2 ≠ [] ∧ ∀ e ∈ g.2, e.signature = g.1) →
    (∀ run ∈ o, run.signature ∉ gs.map Prod.fst) →
    ((gs.flatMap Prod.snd).foldl (foldRow ctx) (out, o)).1 ++
        SignatureRun.flush ((gs.flatMap Prod.snd).foldl (foldRow ctx) (out, o)).2 =
      out ++ SignatureRun.flush o ++ gs.flatMap fun g => SignatureRun.flush (runOf ctx g.2)
  | [], _, _, _, _, _ => by simp
  | g :: gs, out, o, hnodup, hgs, ho => by
    obtain ⟨hne, hown⟩ := hgs g List.mem_cons_self
    obtain ⟨hg, hnodup⟩ := List.nodup_cons.1 (List.map_cons ▸ hnodup)
    rw [List.flatMap_cons, List.foldl_append, foldl_foldRow_other hne
        (fun run hrun h => ho run hrun (h ▸ by simp)) hown,
      foldl_foldRow_groups hnodup (fun g' hg' => hgs g' (List.mem_cons_of_mem _ hg'))
        fun run hrun => signature_runOf hown run hrun ▸ hg]
    simp only [List.flatMap_cons, List.append_assoc]

/-- **One run for each signature**: what the fold over rows in the order of their signatures
closes. -/
theorem summariesOf_eq {es : List DirEntry}
    (hsorted : es.Pairwise fun a b => a.signature ≤ b.signature) :
    summariesOf ctx es = (Grouping.groupByKey DirEntry.signature es).flatMap fun g =>
      SignatureRun.flush (runOf ctx g.2) := by
  have hnodup : ((Grouping.groupByKey DirEntry.signature es).map Prod.fst).Nodup := by
    rw [Grouping.map_fst_groupByKey]
    exact Grouping.nodup_keysOf _ _
  have hgroups : ∀ g ∈ Grouping.groupByKey DirEntry.signature es,
      g.2 ≠ [] ∧ ∀ e ∈ g.2, e.signature = g.1 := by
    refine fun g hg => ⟨Grouping.group_ne_nil hg, fun e he => ?_⟩
    rw [(Grouping.mem_groupByKey.1 hg).2] at he
    exact (Grouping.mem_under.1 he).2
  have h := @foldl_foldRow_groups ctx _ [] none hnodup hgroups nofun
  rw [Grouping.flatMap_groupByKey hsorted] at h
  exact h

theorem trustOf_eq (members : List (Bytes × DirTrust)) : trustOf members =
    if members.any fun m => decide (m.2 = .untrusted) then .untrusted else .trusted := by
  have hneg : (members.any fun m => decide (m.2 = .untrusted)) =
      !members.all fun m => decide (m.2 = .trusted) := by
    rw [List.not_all_eq_any_not]
    refine congrArg members.any (funext fun m => ?_)
    cases m.2 <;> rfl
  unfold trustOf
  rw [hneg]
  cases members.all fun m => decide (m.2 = .trusted) <;> rfl

/-- What the rows of one signature are listed as, under the figures of the first of them. -/
theorem flush_runOf (ctx : Bytes → DirDisposition) {e : DirEntry} {es : List DirEntry}
    (hlen : (e :: es).length < 2 ^ 32) :
    SignatureRun.flush (runOf ctx (e :: es)) =
      if 2 ≤ (membersOf ctx (e :: es)).length then
        [{ rank := 0
           signature := e.signature
           dirCount := (membersOf ctx (e :: es)).length
           fileCount := e.fileCount
           sizePerDir := e.sizePerDir
           trust := trustOf (membersOf ctx (e :: es)) }]
      else [] := by
  have hmembers : (membersOf ctx (e :: es)).length < 2 ^ 32 :=
    lt_of_le_of_lt (List.length_filterMap_le _ _) hlen
  unfold runOf SignatureRun.flush
  simp only [foldl_take (e :: es) (show (SignatureRun.opened e).survivors < 2 ^ 32 from
    Nat.two_pow_pos 32), trustOf_eq]
  simp only [SignatureRun.opened, Nat.zero_add, Nat.mod_eq_of_lt hmembers, Bool.false_or]

theorem signature_flush {o : Option SignatureRun} {x : AttributedDirGroupSummary}
    (hx : x ∈ SignatureRun.flush o) : ∃ run ∈ o, x.signature = run.signature := by
  unfold SignatureRun.flush at hx
  split at hx
  · cases hx
  · split at hx
    · rw [List.mem_singleton] at hx
      exact ⟨_, rfl, hx ▸ rfl⟩
    · cases hx

/-- What is listed under a signature comes of its own rows. -/
theorem mem_summariesOf {es : List DirEntry}
    (hsorted : es.Pairwise fun a b => a.signature ≤ b.signature) {x : AttributedDirGroupSummary} :
    x ∈ summariesOf ctx es ↔
      x ∈ SignatureRun.flush (runOf ctx (Grouping.under DirEntry.signature x.signature es)) := by
  rw [summariesOf_eq hsorted, Grouping.groupByKey_eq, List.flatMap_map, List.mem_flatMap]
  constructor
  · rintro ⟨k, -, hx⟩
    obtain ⟨run, hrun, hsig⟩ := signature_flush hx
    rwa [hsig, signature_runOf (fun e he => (Grouping.mem_under.1 he).2) run hrun]
  · intro hx
    refine ⟨x.signature, Grouping.mem_keysOf.2 ?_, hx⟩
    cases hown : Grouping.under DirEntry.signature x.signature es with
    | nil => rw [hown] at hx; cases hx
    | cons e rest =>
      have he : e ∈ Grouping.under DirEntry.signature x.signature es := hown ▸ List.mem_cons_self
      exact ⟨e, (Grouping.mem_under.1 he).1, (Grouping.mem_under.1 he).2⟩

/-- No signature is listed twice. -/
theorem nodup_summariesOf {es : List DirEntry}
    (hsorted : es.Pairwise fun a b => a.signature ≤ b.signature) :
    ((summariesOf ctx es).map AttributedDirGroupSummary.signature).Nodup := by
  have hlist : ∀ o : Option SignatureRun,
      ((SignatureRun.flush o).map AttributedDirGroupSummary.signature).Nodup := by
    intro o
    unfold SignatureRun.flush
    split
    · exact List.nodup_nil
    · split <;> simp
  rw [summariesOf_eq hsorted, Grouping.groupByKey_eq, List.flatMap_map, List.map_flatMap,
    Grouping.nodup_flatMap_keys _ _ fun k _ => hlist _]
  refine (Grouping.nodup_keysOf DirEntry.signature es).imp fun {k k'} hne => ?_
  have hkey : ∀ k, ∀ s ∈ (SignatureRun.flush (runOf ctx
      (Grouping.under DirEntry.signature k es))).map AttributedDirGroupSummary.signature, s = k := by
    intro k s hs
    obtain ⟨x, hx, rfl⟩ := List.mem_map.1 hs
    obtain ⟨run, hrun, hsig⟩ := signature_flush hx
    rw [hsig, signature_runOf (fun e he => (Grouping.mem_under.1 he).2) run hrun]
  exact fun s hs hs' => hne ((hkey k s hs).symm.trans (hkey k' s hs'))

/-- A signature is listed exactly when two of its members survive, with their number and their
trust together. -/
theorem summariesOf_iff {es : List DirEntry}
    (hsorted : es.Pairwise fun a b => a.signature ≤ b.signature) {signature : Bytes}
    (hlen : (Grouping.under DirEntry.signature signature es).length < 2 ^ 32) {count : Nat}
    {trust : DirTrust} :
    (∃ x ∈ summariesOf ctx es, x.signature = signature ∧ x.dirCount = count ∧ x.trust = trust) ↔
      2 ≤ (membersOf ctx (Grouping.under DirEntry.signature signature es)).length ∧
        (membersOf ctx (Grouping.under DirEntry.signature signature es)).length = count ∧
        trustOf (membersOf ctx (Grouping.under DirEntry.signature signature es)) = trust := by
  simp only [mem_summariesOf hsorted]
  cases hown : Grouping.under DirEntry.signature signature es with
  | nil =>
    constructor
    · rintro ⟨x, hx, rfl, -⟩
      rw [hown] at hx
      cases hx
    · rintro ⟨h, -⟩
      exact absurd h (by simp [membersOf])
  | cons e rest =>
    have he : e ∈ Grouping.under DirEntry.signature signature es := hown ▸ List.mem_cons_self
    have hsig : e.signature = signature := (Grouping.mem_under.1 he).2
    have hflush := flush_runOf ctx (hown ▸ hlen)
    constructor
    · rintro ⟨x, hx, rfl, rfl, rfl⟩
      rw [hown, hflush] at hx
      split at hx
      · rename_i htwo
        rw [List.mem_singleton] at hx
        rw [hx]
        exact ⟨htwo, rfl, rfl⟩
      · cases hx
    · rintro ⟨htwo, rfl, rfl⟩
      rw [if_pos htwo] at hflush
      refine ⟨⟨0, e.signature, (membersOf ctx (e :: rest)).length, e.fileCount, e.sizePerDir,
        trustOf (membersOf ctx (e :: rest))⟩, ?_, hsig, rfl, rfl⟩
      simp only [hsig, hown, hflush, List.mem_singleton]

end Fold

/-! ## The three readers -/

theorem text_key_le {a b : Bytes} : (Value.text a).key ≤ (Value.text b).key ↔ a ≤ b := by
  simp [Value.key, Prod.Lex.le_iff]

/-- The entries of rows in the order of signature and pathname are in the order of signatures. -/
theorem entries_sorted {dirs : List DirRow} {es : List DirEntry}
    (h : readDirRows (Sql.orderBy (fun r : DirRow => toLex (r.signature.key, r.path.key)) dirs) =
      .ok es) : es.Pairwise fun a b => a.signature ≤ b.signature := by
  have hrows := Sql.orderBy_sorted (fun r : DirRow => toLex (r.signature.key, r.path.key)) dirs
  generalize Sql.orderBy (fun r : DirRow => toLex (r.signature.key, r.path.key)) dirs = rows at h hrows
  have hread := readDirRows_ok.1 h
  clear h
  induction hread with
  | nil => exact List.Pairwise.nil
  | cons he hes ih =>
    obtain ⟨hr, hrows⟩ := List.pairwise_cons.1 hrows
    refine List.pairwise_cons.2 ⟨fun e' he' => ?_, ih hrows⟩
    obtain ⟨r', hr', hread'⟩ := exists_of_forall₂_right hes e' he'
    have hle := hr r' hr'
    rw [Prod.Lex.toLex_le_toLex', (readDirRow_ok he).1, (readDirRow_ok hread').1] at hle
    exact text_key_le.1 hle.1

theorem attributedDirGroup_ok {t : DirTables} {signature : Bytes} {g : AttributedDirGroup} :
    attributedDirGroup t signature = .ok (some g) ↔
      ∃ outcome own, completenessSnapshot t.ledger = .ok outcome ∧
        readDirRows (signatureRows t.dirs (.text signature)) = .ok own ∧
        groupOf (attributionContext outcome) own = some g := by
  unfold attributedDirGroup
  split
  · rename_i h; simp [h]
  · rename_i outcome h
    split
    · rename_i hrows; simp [hrows]
    · rename_i own hrows; simp [h, hrows]

theorem attributedDirGroupAt_ok {t : DirTables} {dir : Bytes} {g : AttributedDirGroup} :
    attributedDirGroupAt t dir = .ok (some g) ↔
      ∃ outcome own, completenessSnapshot t.ledger = .ok outcome ∧
        readDirRows (signatureRows t.dirs (signatureAt t.dirs dir)) = .ok own ∧
        (∃ m ∈ membersOf (attributionContext outcome) own, pathOrder m.1 = pathOrder dir) ∧
        groupOf (attributionContext outcome) own = some g := by
  unfold attributedDirGroupAt
  split
  · rename_i h; simp [h]
  · rename_i outcome h
    split
    · rename_i hrows; simp [hrows]
    · rename_i own hrows
      simp only [h, hrows, Except.ok.injEq, List.any_eq_true, decide_eq_true_eq,
        exists_and_left, exists_eq_left']
      split
      · rename_i hany
        simp only [Except.ok.injEq, hany, true_and]
      · rename_i hany
        simp only [hany, false_and, Except.ok.injEq, reduceCtorEq]

/-- The place of one component in the order of `Path`. -/
def pathPart (b : Bytes) : ℕ ×ₗ Bytes := if b = [46, 46] then toLex (2, []) else toLex (3, b)

theorem pathPart_injective : Function.Injective pathPart := by
  intro a b h
  unfold pathPart at h
  split at h <;> split at h <;> simp_all

theorem zero_notMem_pathParts (l : List Bytes) : toLex (0, []) ∉ l.map pathPart := by
  rw [List.mem_map]
  rintro ⟨b, -, hb⟩
  unfold pathPart at hb
  split at hb <;> simp at hb

/-- The names between the separators of a spelling. -/
def keptParts (raw : Bytes) : List Bytes :=
  (raw.splitOn 47).filter fun b => decide (b ≠ [] ∧ b ≠ [46])

theorem pathOrder_absolute {raw : Bytes} (h : raw.head? = some 47) :
    pathOrder raw = toLex (0, []) :: (keptParts raw).map pathPart := by
  obtain ⟨rest, rfl⟩ : ∃ rest, raw = 47 :: rest := by
    cases raw with
    | nil => cases h
    | cons x rest => exact ⟨rest, by rw [Option.some.inj h]⟩
  have hsplit : (47 :: rest : Bytes).splitOn 47 = [] :: rest.splitOn 47 := by
    rw [List.splitOn_cons_eq_if_modifyHead, if_pos (beq_self_eq_true _)]
  unfold pathOrder keptParts
  rw [hsplit]
  simp only [if_pos h, List.filter_cons]
  rfl

theorem pathOrder_relative {raw : Bytes} (h : raw.head? ≠ some 47) :
    toLex (0, []) ∉ pathOrder raw := by
  unfold pathOrder
  split
  · exact List.not_mem_nil
  · rename_i first rest _
    simp only [if_neg h]
    split
    · rw [List.mem_cons, not_or]
      exact ⟨by simp, zero_notMem_pathParts _⟩
    · exact zero_notMem_pathParts _

/-- Two spellings of one path have one key. -/
theorem ofText_eq_of_pathOrder {a b : Bytes} (h : pathOrder a = pathOrder b) :
    PathKey.ofText a = PathKey.ofText b := by
  unfold PathKey.ofText
  by_cases ha : a.head? = some 47
  · by_cases hb : b.head? = some 47
    · rw [pathOrder_absolute ha, pathOrder_absolute hb] at h
      have hparts : keptParts a = keptParts b := pathPart_injective.list_map (List.cons.inj h).2
      unfold keptParts at hparts
      rw [if_pos ha, if_pos hb, hparts]
    · exact absurd (h ▸ pathOrder_absolute ha ▸ List.mem_cons_self) (pathOrder_relative hb)
  · by_cases hb : b.head? = some 47
    · exact absurd (h.symm ▸ pathOrder_absolute hb ▸ List.mem_cons_self) (pathOrder_relative ha)
    · rw [if_neg ha, if_neg hb]

theorem attributionContext_congr {outcome : SnapshotOutcome} {a b : Bytes}
    (h : pathOrder a = pathOrder b) : attributionContext outcome a = attributionContext outcome b := by
  cases outcome with
  | unavailable why => rfl
  | bounded snap =>
    unfold attributionContext CompletenessSnapshot.dispositionOfText
    simp only [ofText_eq_of_pathOrder h]

/-- Every pathname is stored under one signature. -/
def StoredOnce (t : DirTables) : Prop :=
  ∀ r ∈ t.dirs, ∀ r' ∈ t.dirs, Value.same r.path r'.path = true →
    Value.same r.signature r'.signature = true

/-- No signature has as many rows as a counter of 32 bits has values. -/
def CountsFit (t : DirTables) : Prop :=
  ∀ signature, (t.dirs.filter fun r => Value.same r.signature signature).length < 2 ^ 32

/-- What the list and the group of a signature say of one another. -/
structure TwinGroupsAgree (t : DirTables) : Prop where
  /-- A signature is listed, once, exactly when it has a group, of that size and that trust. -/
  listed : ∀ list, attributedDirGroupSummaries t = .ok list →
    (list.groups.map AttributedDirGroupSummary.signature).Nodup ∧
      ∀ signature count trust,
        (∃ x ∈ list.groups, x.signature = signature ∧ x.dirCount = count ∧ x.trust = trust) ↔
          ∃ g, attributedDirGroup t signature = .ok (some g) ∧ g.group.paths.length = count ∧
            g.trust = trust
  /-- A group has two members at least, and the ledger suppresses none of them. -/
  members : ∀ signature g, attributedDirGroup t signature = .ok (some g) →
    2 ≤ g.group.paths.length ∧ ∃ outcome, completenessSnapshot t.ledger = .ok outcome ∧
      ∀ path ∈ g.group.paths, attributionContext outcome path ≠ .suppressed

/-- What the list, the group of a signature and the group of a directory say of one another. -/
structure TwinReadersAgree (memo : Option DirGroupMemo) (s : Snapshot) (t : DirTables)
    (dataVersion : Int) : Prop extends TwinGroupsAgree t where
  /-- A directory is answered with the group that holds it. -/
  found : ∀ dir g, (dirGroupAt memo s t dataVersion dir).1 = .ok (.group g) ↔
    ∃ signature, attributedDirGroup t signature = .ok (some g) ∧ dir ∈ g.group.paths

/-- What the readers say of one another whatever the rows, and what the cursors leave behind. -/
structure TwinReadersSound (memo : Option DirGroupMemo) (s : Snapshot) (t : DirTables)
    (dataVersion : Int) : Prop extends TwinGroupsAgree t where
  /-- The group a directory is answered with is the group of a signature, and holds it. -/
  found : ∀ dir g, (dirGroupAt memo s t dataVersion dir).1 = .ok (.group g) →
    ∃ signature, attributedDirGroup t signature = .ok (some g) ∧ dir ∈ g.group.paths
  /-- Where every directory has one signature, it is answered with the group that holds it. -/
  holder : StoredOnce t → ∀ dir g,
    (∃ signature, attributedDirGroup t signature = .ok (some g) ∧ dir ∈ g.group.paths) →
      (dirGroupAt memo s t dataVersion dir).1 = .ok (.group g)
  /-- What a cursor leaves in the memo is right for the cursors behind it. -/
  kept : ∀ dir, MemoRight (dirGroupAt memo s t dataVersion dir).2 s t dataVersion

theorem TwinReadersSound.agree {memo : Option DirGroupMemo} {s : Snapshot} {t : DirTables}
    {dataVersion : Int} (h : TwinReadersSound memo s t dataVersion) (honce : StoredOnce t) :
    TwinReadersAgree memo s t dataVersion where
  toTwinGroupsAgree := h.toTwinGroupsAgree
  found dir g := ⟨h.found dir g, h.holder honce dir g⟩

section Agree

variable {t : DirTables}

theorem ranked_map {γ : Type} {f : AttributedDirGroupSummary → γ} (rank : ℕ → ℕ)
    (hf : ∀ x n, f { x with rank := n } = f x) (l : List AttributedDirGroupSummary) :
    (l.mapIdx fun i x => { x with rank := rank i }).map f = l.map f :=
  List.ext_getElem (by simp) fun i _ _ => by simp [hf]

/-- What a list is made of: the ledger, the rows, and the fold over them in the order of benefit. -/
theorem attributedDirGroupSummaries_ok {list : AttributedDirGroupSummaries}
    (h : attributedDirGroupSummaries t = .ok list) :
    ∃ outcome es, completenessSnapshot t.ledger = .ok outcome ∧
      readDirRows (Sql.orderBy (fun r : DirRow => toLex (r.signature.key, r.path.key)) t.dirs) =
        .ok es ∧
      list.groups = (byBenefit (summariesOf (attributionContext outcome) es)).mapIdx
        fun i g => { g with rank := (i + 1) % 2 ^ 32 } := by
  unfold attributedDirGroupSummaries at h
  split at h
  · cases h
  · rename_i outcome hout
    split at h
    · cases h
    · rename_i es hes
      simp only at h
      split at h
      · cases h
      · cases h
        exact ⟨outcome, es, hout, hes, rfl⟩

theorem twins_listed (hfit : CountsFit t) {list : AttributedDirGroupSummaries}
    (h : attributedDirGroupSummaries t = .ok list) :
    (list.groups.map AttributedDirGroupSummary.signature).Nodup ∧
      ∀ signature count trust,
        (∃ x ∈ list.groups, x.signature = signature ∧ x.dirCount = count ∧ x.trust = trust) ↔
          ∃ g, attributedDirGroup t signature = .ok (some g) ∧ g.group.paths.length = count ∧
            g.trust = trust := by
  obtain ⟨outcome, es, hout, hes, hgroups⟩ := attributedDirGroupSummaries_ok h
  have hsorted := entries_sorted hes
  have hperm : (byBenefit (summariesOf (attributionContext outcome) es)).Perm
      (summariesOf (attributionContext outcome) es) := List.perm_insertionSort _ _
  constructor
  · rw [hgroups, ranked_map _ fun _ _ => rfl, (hperm.map _).nodup_iff]
    exact nodup_summariesOf hsorted
  · intro signature count trust
    obtain ⟨own, hown, hpermOwn⟩ := readDirRows_signatureRows (Sql.orderBy_perm _ t.dirs).symm hes
      signature
    have hlen : (Grouping.under DirEntry.signature signature es).length < 2 ^ 32 := by
      rw [← hpermOwn.length_eq, ← (readDirRows_ok.1 hown).length_eq, signatureRows,
        (Sql.orderBy_perm _ _).length_eq]
      exact hfit (.text signature)
    have hmembers : (membersOf (attributionContext outcome) own).Perm
        (membersOf (attributionContext outcome) (Grouping.under DirEntry.signature signature es)) :=
      hpermOwn.filterMap _
    -- The figures of a summary are looked for among all summaries, whatever their ranks.
    have hlisted : (∃ x ∈ list.groups,
        x.signature = signature ∧ x.dirCount = count ∧ x.trust = trust) ↔
          ∃ x ∈ summariesOf (attributionContext outcome) es,
            x.signature = signature ∧ x.dirCount = count ∧ x.trust = trust := by
      have hfigures := ranked_map (f := fun x => (x.signature, x.dirCount, x.trust))
        (fun i => (i + 1) % 2 ^ 32) (fun _ _ => rfl)
        (byBenefit (summariesOf (attributionContext outcome) es))
      have hmem := (hperm.map fun x => (x.signature, x.dirCount, x.trust)).mem_iff
        (a := (signature, count, trust))
      rw [← hfigures, ← hgroups] at hmem
      simpa only [List.mem_map, Prod.mk.injEq] using hmem
    rw [hlisted, summariesOf_iff hsorted hlen]
    constructor
    · rintro ⟨htwo, hcount, htrust⟩
      rw [← hmembers.length_eq] at htwo hcount
      rw [← trustOf_perm hmembers] at htrust
      obtain ⟨g, hg⟩ := groupOf_isSome.2 htwo
      obtain ⟨-, hpaths, -, hgtrust⟩ := groupOf_eq_some hg
      refine ⟨g, attributedDirGroup_ok.2 ⟨outcome, own, hout, hown, hg⟩, ?_, hgtrust.trans htrust⟩
      rw [hpaths, List.length_map, hcount]
    · rintro ⟨g, hg, rfl, rfl⟩
      obtain ⟨outcome', own', hout', hown', hg⟩ := attributedDirGroup_ok.1 hg
      cases hout.symm.trans hout'
      cases hown.symm.trans hown'
      obtain ⟨htwo, hpaths, -, hgtrust⟩ := groupOf_eq_some hg
      rw [← hmembers.length_eq, ← trustOf_perm hmembers, hpaths, List.length_map]
      exact ⟨htwo, rfl, hgtrust.symm⟩

theorem twins_members {signature : Bytes} {g : AttributedDirGroup}
    (h : attributedDirGroup t signature = .ok (some g)) :
    2 ≤ g.group.paths.length ∧ ∃ outcome, completenessSnapshot t.ledger = .ok outcome ∧
      ∀ path ∈ g.group.paths, attributionContext outcome path ≠ .suppressed := by
  obtain ⟨outcome, own, hout, -, hg⟩ := attributedDirGroup_ok.1 h
  obtain ⟨htwo, hpaths, -, -⟩ := groupOf_eq_some hg
  rw [hpaths]
  refine ⟨by rwa [List.length_map], outcome, hout, fun path hpath => ?_⟩
  obtain ⟨m, hm, rfl⟩ := List.mem_map.1 hpath
  obtain ⟨e, -, -, htrust⟩ := mem_membersOf.1 hm
  exact memberTrustOf_isSome.1 (htrust ▸ rfl)

/-- The row that names the signature of a directory is among the rows of that signature. -/
theorem cursor_entry {dir : Bytes} {own : List DirEntry} (hne : own ≠ [])
    (h : readDirRows (signatureRows t.dirs (signatureAt t.dirs dir)) = .ok own) :
    ∃ e ∈ own, e.path = dir ∧ signatureAt t.dirs dir = .text e.signature := by
  obtain ⟨e, he⟩ := List.exists_mem_of_ne_nil _ hne
  have hsame := signature_of_signatureRows h e he
  have hnull : signatureAt t.dirs dir ≠ .null := fun hv => by simp [hv] at hsame
  obtain ⟨r, hr, hsig⟩ : ∃ r, t.dirs.find? (fun r => Value.same r.path (.text dir)) = some r ∧
      signatureAt t.dirs dir = r.signature := by
    unfold signatureAt cellOf at hnull ⊢
    cases hfind : t.dirs.find? (fun r => Value.same r.path (.text dir)) with
    | none => exact absurd (by rw [hfind]) hnull
    | some r => exact ⟨r, rfl, rfl⟩
  have hmem : r ∈ signatureRows t.dirs (signatureAt t.dirs dir) := by
    rw [signatureRows, Sql.mem_orderBy, List.mem_filter]
    exact ⟨List.mem_of_find?_eq_some hr, hsig ▸ Value.same_iff.2 ⟨hsig ▸ hnull, rfl⟩⟩
  obtain ⟨e', he', hread⟩ := exists_of_forall₂_left (readDirRows_ok.1 h) r hmem
  have hpath : r.path = .text dir := Value.same_text.1 (by simpa using List.find?_some hr)
  refine ⟨e', he', ?_, hsig.trans (readDirRow_ok hread).1⟩
  exact Value.text.inj ((readDirRow_ok hread).2.1.symm.trans hpath)

/-- The group of a directory is the group of a signature that holds it. -/
theorem group_of_cursor {dir : Bytes} {g : AttributedDirGroup}
    (h : attributedDirGroupAt t dir = .ok (some g)) :
    ∃ signature, attributedDirGroup t signature = .ok (some g) ∧ dir ∈ g.group.paths := by
  obtain ⟨outcome, own, hout, hown, ⟨m, hm, horder⟩, hg⟩ := attributedDirGroupAt_ok.1 h
  have hne : own ≠ [] := by
    rintro rfl
    cases hg
  obtain ⟨e, he, hpath, hsig⟩ := cursor_entry hne hown
  refine ⟨e.signature, attributedDirGroup_ok.2 ⟨outcome, own, hout, hsig ▸ hown, hg⟩, ?_⟩
  obtain ⟨-, hpaths, -, -⟩ := groupOf_eq_some hg
  obtain ⟨-, -, -, htrust⟩ := mem_membersOf.1 hm
  -- The member that is the cursor by its components may be spelled otherwise; the row that named
  -- the signature is judged like it.
  have hcursor : memberTrustOf (attributionContext outcome) dir = some m.2 := by
    unfold memberTrustOf at htrust ⊢
    rwa [← attributionContext_congr horder]
  rw [hpaths]
  exact List.mem_map.2 ⟨(dir, m.2), mem_membersOf.2 ⟨e, he, hpath, hcursor⟩, rfl⟩

/-- Where a pathname is stored under one signature, the group that holds it is the group of the
directory. -/
theorem cursor_of_group (honce : StoredOnce t) {dir signature : Bytes} {g : AttributedDirGroup}
    (h : attributedDirGroup t signature = .ok (some g)) (hdir : dir ∈ g.group.paths) :
    isUtf8 dir = true ∧ attributedDirGroupAt t dir = .ok (some g) := by
  obtain ⟨outcome, own, hout, hown, hg⟩ := attributedDirGroup_ok.1 h
  obtain ⟨-, hpaths, -, -⟩ := groupOf_eq_some hg
  rw [hpaths] at hdir
  obtain ⟨m, hm, rfl⟩ := List.mem_map.1 hdir
  obtain ⟨e, he, hpath, -⟩ := mem_membersOf.1 hm
  obtain ⟨r, hr, hread⟩ := exists_of_forall₂_right (readDirRows_ok.1 hown) e he
  obtain ⟨-, hrpath, hutf8⟩ := readDirRow_ok hread
  rw [hpath] at hrpath hutf8
  rw [signatureRows, Sql.mem_orderBy, List.mem_filter, Value.same_text] at hr
  refine ⟨hutf8, attributedDirGroupAt_ok.2 ⟨outcome, own, hout, ?_, ⟨m, hm, rfl⟩, hg⟩⟩
  have hsig : signatureAt t.dirs m.1 = .text signature := by
    unfold signatureAt cellOf
    cases hfind : t.dirs.find? (fun r => Value.same r.path (.text m.1)) with
    | none =>
      have hnone := List.find?_eq_none.1 hfind r hr.1
      exact absurd (Value.same_text.2 hrpath) hnone
    | some r' =>
      have hr'path : r'.path = .text m.1 := Value.same_text.1 (by simpa using List.find?_some hfind)
      have hsame := honce r' (List.mem_of_find?_eq_some hfind) r hr.1
        (by rw [hr'path, hrpath]; exact Value.same_text.2 rfl)
      rw [hr.2] at hsame
      exact Value.same_text.1 hsame
  rwa [hsig]

end Agree

/-- **The three readers agree**, with any memo that holds fresh answers: of what a directory is
answered one direction needs no condition, the other one signature for every directory. -/
theorem twin_readers_agree {memo : Option DirGroupMemo} {s : Snapshot} {t : DirTables}
    {dataVersion : Int} (hfit : CountsFit t) (hmemo : MemoRight memo s t dataVersion) :
    TwinReadersSound memo s t dataVersion where
  listed _ h := twins_listed hfit h
  members _ _ h := twins_members h
  found dir g h := by
    rw [dirGroupAt_fst hmemo] at h
    split at h
    · exact group_of_cursor (Snapshot.dirGroupAtFresh_group.1 h)
    · cases h
  holder honce dir g := by
    rintro ⟨signature, hg, hdir⟩
    obtain ⟨hutf8, hat⟩ := cursor_of_group honce hg hdir
    rw [dirGroupAt_fst hmemo, if_pos hutf8]
    exact Snapshot.dirGroupAtFresh_group.2 hat
  kept dir := dirGroupAt_memoRight hmemo dir

/-! ## A scan with twins -/

/-- A stored twin of one file. -/
def twinRow (signature path : Bytes) : DirRow := ⟨.text signature, .text path, .integer 1, .integer 9⟩

/-- Three twins of the file system's root, of which the ledger suppresses the last. -/
def omittedTwin : DirTables where
  ledger :=
    { config := some [[.rootDir]]
      roots := [([47], 1)]
      omissions := [⟨[47], [47, 99], OmissionReason.walkError.asStr, 1, 1⟩] }
  dirs := [twinRow [49] [47, 97], twinRow [49] [47, 98], twinRow [49] [47, 99]]

def noResults : Snapshot := ⟨⟨[], [], [], none, none⟩, 1, .unknown, 0, []⟩

example : attributedDirGroup omittedTwin [49] =
    .ok (some ⟨⟨[49], [[47, 97], [47, 98]], 1, 9⟩, [.trusted, .trusted], .trusted⟩) := by
  rfl

/-- A cursor that comes to a twin, to the directory that is left out, and to the twin again. -/
def cursorMemo : Option DirGroupMemo :=
  memoBehind noResults omittedTwin 0 [[47, 97], [47, 99], [47, 97]]

theorem omittedTwin_once : StoredOnce omittedTwin := by
  have h : ∀ r ∈ omittedTwin.dirs, r.signature = .text [49] := by decide
  intro r hr r' hr' _
  rw [h r hr, h r' hr']
  exact Value.same_text.2 rfl

theorem twin_readers_agree_sample :
    (DirGroupMemo.remembered cursorMemo noResults 0 [47, 97]).isSome = true ∧
      TwinReadersSound cursorMemo noResults omittedTwin 0 ∧
      TwinReadersAgree cursorMemo noResults omittedTwin 0 := by
  have hfit : CountsFit omittedTwin := fun signature =>
    lt_of_le_of_lt (List.length_filter_le _ _) (by decide)
  have hsound := twin_readers_agree hfit (memoRight_memoBehind noResults omittedTwin 0
    [[47, 97], [47, 99], [47, 97]])
  exact ⟨by rfl, hsound, hsound.agree omittedTwin_once⟩

/-- One directory stored under two signatures. -/
def twoSignatures : DirTables where
  ledger := ⟨some [], [], []⟩
  dirs := [twinRow [49] [47, 97], twinRow [49] [47, 98], twinRow [50] [47, 97],
    twinRow [50] [47, 99]]

/-- A directory of two signatures is a member of both groups and is answered with one. -/
theorem not_twin_readers_agree : ¬ TwinReadersAgree none noResults twoSignatures 0 := by
  intro h
  have h₁ : attributedDirGroup twoSignatures [49] = .ok (some
    ⟨⟨[49], [[47, 97], [47, 98]], 1, 9⟩, [.untrusted, .untrusted], .untrusted⟩) := by rfl
  have h₂ : attributedDirGroup twoSignatures [50] = .ok (some
    ⟨⟨[50], [[47, 97], [47, 99]], 1, 9⟩, [.untrusted, .untrusted], .untrusted⟩) := by rfl
  have hfirst := (h.found [47, 97] _).2 ⟨[49], h₁, List.mem_cons_self⟩
  have hsecond := (h.found [47, 97] _).2 ⟨[50], h₂, List.mem_cons_self⟩
  rw [hfirst] at hsecond
  simp at hsecond

end DedupCommando
