import Mathlib
import DedupCommando.Lib.Checked

/-!
# Pathnames

Rust's `Path` compares, orders and hashes component by component, so a pathname is modelled
by its list of components:

* `Name` — what one directory entry is called: arbitrary non-NUL bytes without a separator,
  never empty, `.` or `..`.
* `Component`, `Path` — `std::path::Component` and the components of a path, with the order
  `RootDir < CurDir < ParentDir < Normal` and the byte order on names.
* `parent`, `fileName`, `stripPrefix`, `join`, `withFileName`, `ancestors` — the operations the
  program uses, on components.
* `lossyUtf8` — `String::from_utf8_lossy` on bytes; `lossyUtf8_of_isUtf8` says that it is the
  identity on well-formed UTF-8.
-/

set_option autoImplicit false

namespace DedupCommando

abbrev Byte := Fin 256

/-- A byte string: an `OsStr`, the bytes of a Rust `String`, a file's content. -/
abbrev Bytes := List Byte

/-! ## UTF-8 -/

def isContinuation (b : Byte) : Bool := decide (0x80 ≤ b ∧ b ≤ 0xBF)

def leadsTwo (a : Byte) : Bool := decide (0xC2 ≤ a ∧ a ≤ 0xDF)

/-- The first two bytes of a three-byte character: no overlong form, no surrogate. -/
def leadsThree (a b : Byte) : Bool :=
  isContinuation b &&
    decide (0xE0 ≤ a ∧ a ≤ 0xEF ∧ (a = 0xE0 → 0xA0 ≤ b) ∧ (a = 0xED → b ≤ 0x9F))

/-- The first two bytes of a four-byte character: no overlong form, nothing past U+10FFFF. -/
def leadsFour (a b : Byte) : Bool :=
  isContinuation b &&
    decide (0xF0 ≤ a ∧ a ≤ 0xF4 ∧ (a = 0xF0 → 0x90 ≤ b) ∧ (a = 0xF4 → b ≤ 0x8F))

def replacement : Bytes := [0xEF, 0xBF, 0xBD]

/-- `String::from_utf8_lossy`: every maximal malformed start becomes one U+FFFD. -/
def lossyUtf8 : Bytes → Bytes
  | [] => []
  | a :: l =>
    if a < 0x80 then a :: lossyUtf8 l
    else match l with
      | [] => replacement
      | b :: l' =>
        if leadsTwo a && isContinuation b then a :: b :: lossyUtf8 l'
        else if leadsThree a b then
          match l' with
          | [] => replacement
          | c :: l'' =>
            if isContinuation c then a :: b :: c :: lossyUtf8 l''
            else replacement ++ lossyUtf8 (c :: l'')
        else if leadsFour a b then
          match l' with
          | [] => replacement
          | c :: l'' =>
            if isContinuation c then
              match l'' with
              | [] => replacement
              | d :: l''' =>
                if isContinuation d then a :: b :: c :: d :: lossyUtf8 l'''
                else replacement ++ lossyUtf8 (d :: l''')
            else replacement ++ lossyUtf8 (c :: l'')
        else replacement ++ lossyUtf8 (b :: l')

/-- `str::from_utf8` accepts the bytes. -/
def isUtf8 : Bytes → Bool
  | [] => true
  | a :: l =>
    if a < 0x80 then isUtf8 l
    else match l with
      | [] => false
      | b :: l' =>
        if leadsTwo a && isContinuation b then isUtf8 l'
        else match l' with
          | [] => false
          | c :: l'' =>
            if leadsThree a b then isContinuation c && isUtf8 l''
            else match l'' with
              | [] => false
              | d :: l''' =>
                leadsFour a b && isContinuation c && isContinuation d && isUtf8 l'''

/-- **Well-formed UTF-8 survives the lossy conversion byte for byte.** -/
theorem lossyUtf8_of_isUtf8 (b : Bytes) (h : isUtf8 b = true) : lossyUtf8 b = b := by
  fun_induction isUtf8 b with
  | case1 => rfl
  | case2 a l ha ih => unfold lossyUtf8; rw [if_pos ha, ih h]
  | case3 a ha => cases h
  | case4 a ha b l hb ih => unfold lossyUtf8; simp [ha, hb, ih h]
  | case5 a ha b hb => cases h
  | case6 a ha b hb c l hc ih =>
    obtain ⟨h₁, h₂⟩ := Bool.and_eq_true_iff.1 h
    unfold lossyUtf8; simp [ha, hb, hc, h₁, ih h₂]
  | case7 a ha b hb c hc => cases h
  | case8 a ha b hb c hc d l ih =>
    simp only [Bool.and_eq_true] at h
    obtain ⟨⟨⟨h₁, h₂⟩, h₃⟩, h₄⟩ := h
    unfold lossyUtf8; simp [ha, hb, hc, h₁, h₂, h₃, ih h₄]

/-- The bytes as text for a message. -/
def Bytes.display (b : Bytes) : String :=
  (String.fromUTF8? ⟨((lossyUtf8 b).map fun x => UInt8.ofNat x.val).toArray⟩).getD ""

/-- `textsan::terminal`: control characters in their visible escapes. -/
def terminal (text : String) : String :=
  text.toList.foldl (fun out c =>
    if c.val < 32 ∨ (127 ≤ c.val ∧ c.val ≤ 159) then
      out ++ (if c = '\n' then "\\n" else if c = '\r' then "\\r" else if c = '\t' then "\\t"
        else "\\u" ++ "\x7b" ++ String.ofList (Nat.toDigits 16 c.toNat) ++ "\x7d")
    else out.push c) ""

/-! ## Decimal numbers -/

/-- The decimal digits of `n` in front of `rest`; `n < 10 ^ fuel`. -/
def decimalFrom : Nat → Nat → Bytes → Bytes
  | 0, _, rest => rest
  | fuel + 1, n, rest =>
    let rest := Fin.ofNat 256 (48 + n % 10) :: rest
    if n / 10 = 0 then rest else decimalFrom fuel (n / 10) rest

/-- `{n}` in a format string. -/
def decimal (n : Nat) : Bytes := decimalFrom (n + 1) n []

/-- `{n:09}`. -/
def decimal9 (n : Nat) : Bytes :=
  List.replicate (9 - (decimal n).length) 48 ++ decimal n

theorem decimalFrom_digits :
    ∀ {fuel n : Nat} {rest : Bytes}, (∀ b ∈ rest, 48 ≤ b.val ∧ b.val ≤ 57) →
      ∀ b ∈ decimalFrom fuel n rest, 48 ≤ b.val ∧ b.val ≤ 57
  | 0, _, _, h => h
  | fuel + 1, n, rest, h => by
    have hrest : ∀ b ∈ Fin.ofNat 256 (48 + n % 10) :: rest, 48 ≤ b.val ∧ b.val ≤ 57 := by
      intro b hb
      rcases List.mem_cons.1 hb with rfl | hb
      · simp only [Fin.ofNat]; omega
      · exact h b hb
    unfold decimalFrom
    simp only
    split
    · exact hrest
    · exact decimalFrom_digits hrest

theorem decimal_digits {n : Nat} : ∀ b ∈ decimal n, 48 ≤ b.val ∧ b.val ≤ 57 :=
  decimalFrom_digits fun _ h => (List.not_mem_nil h).elim

/-! ## Names -/

/-- What Unix accepts as the name of a directory entry. -/
def isName (b : Bytes) : Bool :=
  decide (b ≠ [] ∧ b ≠ [46] ∧ b ≠ [46, 46] ∧ 0 ∉ b ∧ 47 ∉ b)

structure Name where
  bytes : Bytes
  valid : isName bytes = true

theorem Name.bytes_injective : Function.Injective Name.bytes := by
  rintro ⟨a, ha⟩ ⟨b, hb⟩ (h : a = b)
  subst h; rfl

instance : LinearOrder Name := LinearOrder.lift' Name.bytes Name.bytes_injective

theorem Name.ne_nil (n : Name) : n.bytes ≠ [] := by
  have h := n.valid
  simp only [isName, decide_eq_true_eq] at h
  exact h.1

theorem Name.nul_notMem (n : Name) : 0 ∉ n.bytes := by
  have h := n.valid
  simp only [isName, decide_eq_true_eq] at h
  exact h.2.2.2.1

theorem Name.slash_notMem (n : Name) : 47 ∉ n.bytes := by
  have h := n.valid
  simp only [isName, decide_eq_true_eq] at h
  exact h.2.2.2.2

/-- Bytes of at least three that hold neither NUL nor a separator are a name. -/
def Name.ofBytes (b : Bytes) (hlen : 3 ≤ b.length) (h : ∀ x ∈ b, x ≠ 0 ∧ x ≠ 47) : Name :=
  ⟨b, by
    simp only [isName, decide_eq_true_eq]
    refine ⟨?_, ?_, ?_, fun h0 => (h 0 h0).1 rfl, fun h47 => (h 47 h47).2 rfl⟩
    all_goals rintro rfl; simp at hlen⟩

theorem Name.byte_ok (n : Name) : ∀ x ∈ n.bytes, x ≠ 0 ∧ x ≠ 47 :=
  fun _ hx => ⟨fun h => n.nul_notMem (h ▸ hx), fun h => n.slash_notMem (h ▸ hx)⟩

theorem digit_ok {x : Byte} (h : 48 ≤ x.val ∧ x.val ≤ 57) : x ≠ 0 ∧ x ≠ 47 := by
  refine ⟨fun hx => ?_, fun hx => ?_⟩
  · subst hx; exact absurd h.1 (by decide)
  · subst hx; exact absurd h.1 (by decide)

/-! ## Paths -/

/-- `std::path::Component` on Unix. -/
inductive Component where
  | rootDir
  | curDir
  | parentDir
  | normal (name : Name)

/-- The place of a component in the derived order of `std::path::Component`. -/
def Component.key : Component → ℕ ×ₗ Bytes
  | .rootDir => toLex (0, [])
  | .curDir => toLex (1, [])
  | .parentDir => toLex (2, [])
  | .normal n => toLex (3, n.bytes)

theorem Component.key_injective : Function.Injective Component.key := by
  intro a b h
  have h' := toLex.injective.eq_iff.1 h
  cases a <;> cases b <;> first | rfl | skip
  all_goals simp [Component.key] at h
  exact congrArg Component.normal (Name.bytes_injective h)

instance : LinearOrder Component := LinearOrder.lift' Component.key Component.key_injective

/-- A `Path` up to its own equality: its components. -/
abbrev Path := List Component

instance Path.lawful : LawfulBEq (List Component) := inferInstance

namespace Path

def isAbsolute (p : Path) : Bool := decide (p.head? = some .rootDir)

/-- `Path::file_name`: the last component, when it is a name. -/
def fileName (p : Path) : Option Name :=
  match p.getLast? with
  | some (.normal n) => some n
  | _ => none

/-- `Path::parent`: everything but the last component; a root and the empty path have none. -/
def parent (p : Path) : Option Path :=
  match p.getLast? with
  | none => none
  | some .rootDir => none
  | some _ => some p.dropLast

/-- `Path::starts_with`: component containment. -/
def startsWith (p base : Path) : Bool := base.isPrefixOf p

def stripPrefix (p base : Path) : Option Path :=
  if startsWith p base then some (p.drop base.length) else none

/-- `Path::join`: an absolute `q` replaces `p`, and a leading `.` of `q` is dropped behind it. -/
def join (p q : Path) : Path :=
  if q.isAbsolute then q
  else if p = [] then q
  else p ++ q.dropWhile fun c => decide (c = .curDir)

/-- `Path::with_file_name` for one name. -/
def withFileName (p : Path) (n : Name) : Path :=
  match p.fileName with
  | some _ => p.dropLast ++ [.normal n]
  | none => p ++ [.normal n]

/-- `Path::ancestors().skip(1)`: the parents, nearest first, down to the root or the empty path. -/
def parents (p : Path) : List Path :=
  ((List.range p.length).reverse.map fun n => p.take n).filter
    fun q => decide (q ≠ []) || !p.isAbsolute

def componentBytes : Component → Bytes
  | .rootDir => []
  | .curDir => [46]
  | .parentDir => [46, 46]
  | .normal n => n.bytes

/-- The canonical spelling: the components joined by `/`. -/
def bytes (p : Path) : Bytes :=
  match p with
  | [.rootDir] => [47]
  | _ => List.intercalate [47] (p.map componentBytes)

def display (p : Path) : String := Bytes.display p.bytes

/-- The components of what stands between separators; a repeated separator and `.` say nothing.
    A NUL is in no name. -/
def partsOf : List Bytes → Option Path
  | [] => some []
  | b :: rest =>
    if b = [] ∨ b = [46] then partsOf rest
    else if b = [46, 46] then (partsOf rest).map fun p => .parentDir :: p
    else if h : isName b = true then (partsOf rest).map fun p => .normal ⟨b, h⟩ :: p
    else none

/-- `PathBuf::from` a string: a leading `.` stays a component. -/
def ofText (raw : Bytes) : Option Path :=
  match raw.splitOn 47 with
  | [] => some []
  | first :: rest =>
    if raw.head? = some 47 then (partsOf rest).map fun p => .rootDir :: p
    else if first = [46] then (partsOf rest).map fun p => .curDir :: p
    else partsOf (first :: rest)

end Path

end DedupCommando
