import Mathlib.Tactic.TypeStar
import Mathlib.Data.List.Basic

/-!
# Comma-separated values

Records of fields as RFC 4180 writes them: a field that holds a comma, a quote or a line break is
put into quotes and its quotes are doubled.  A record ends at a line feed, or at a carriage return
and a line feed.

* `parse` — one character at a time; a quote in an unquoted field, text behind a closing quote, an
  unfinished quote or a lone carriage return is refused.
* `field`, `line` — a field and a record as they are written.
* `parse_lines` — **what was written is read back**.
-/

set_option autoImplicit false

namespace Csv

/-- A record as the list of its fields. -/
abbrev Record := List (List Char)

/-! ## The reader -/

/-- Where the reader is inside a field. -/
inductive Place where
  | start
  | plain
  | quoted
  | closed
  | cr
  deriving DecidableEq

/-- Reads on from a place, behind the characters of this field and the fields of this record. -/
def parseFrom : Place → List Char → Record → List Char → Option (List Record)
  | place, text, fields, [] =>
    match place with
    | .start => if fields = [] then some [] else some [fields ++ [text]]
    | .plain | .closed => some [fields ++ [text]]
    | .quoted | .cr => none
  | place, text, fields, c :: cs =>
    match place with
    | .quoted =>
      if c = '"' then parseFrom .closed text fields cs else parseFrom .quoted (text ++ [c]) fields cs
    | .cr =>
      if c = '\n' then (parseFrom .start [] [] cs).map fun rs => (fields ++ [text]) :: rs else none
    | place =>
      if c = ',' then parseFrom .start [] (fields ++ [text]) cs
      else if c = '\n' then (parseFrom .start [] [] cs).map fun rs => (fields ++ [text]) :: rs
      else if c = '\r' then parseFrom .cr text fields cs
      else if c = '"' then
        match place with
        | .start => parseFrom .quoted text fields cs
        | .closed => parseFrom .quoted (text ++ [c]) fields cs
        | _ => none
      else if place = .closed then none
      else parseFrom .plain (text ++ [c]) fields cs

/-- The records of a file. -/
def parse (text : List Char) : Option (List Record) := parseFrom .start [] [] text

/-! ## The writer -/

/-- A field with one of these characters is put into quotes. -/
def special (c : Char) : Bool := decide (c = ',' ∨ c = '"' ∨ c = '\n' ∨ c = '\r')

/-- A quote inside quotes is doubled. -/
def doubled (text : List Char) : List Char :=
  text.flatMap fun c => if c = '"' then ['"', '"'] else [c]

/-- A field as it is written. -/
def field (text : List Char) : List Char :=
  if text.any special then '"' :: doubled text ++ ['"'] else text

/-- The fields of a record with commas between them. -/
def joined : Record → List Char
  | [] => []
  | [text] => field text
  | text :: texts => field text ++ ',' :: joined texts

theorem joined_eq : ∀ texts : Record, joined texts = [','].intercalate (texts.map field)
  | [] => rfl
  | [text] => by simp [joined, List.intercalate]
  | text :: next :: texts => by
    rw [joined, joined_eq (next :: texts)]
    · simp [List.intercalate]
    · simp

/-- A text without any of the four characters is written as it is. -/
theorem field_plain {text : List Char} (h : text.any special = false) : field text = text := by
  unfold field
  rw [h]
  rfl

/-- A record as it is written. -/
def line (fields : Record) : List Char := joined fields ++ ['\n']

/-! ## Reading what was written -/

/-- The characters of an unquoted field. -/
theorem parseFrom_plain {fields : Record} {rest : List Char} : ∀ {text read : List Char} {p : Place},
    p = .start ∨ p = .plain → text.any special = false →
    ∃ p', (p' = .start ∨ p' = .plain) ∧
      parseFrom p read fields (text ++ rest) = parseFrom p' (read ++ text) fields rest
  | [], read, p, hp, _ => ⟨p, hp, by simp⟩
  | c :: text, read, p, hp, htext => by
    rw [List.any_cons, Bool.or_eq_false_iff] at htext
    obtain ⟨hc, htext⟩ := htext
    obtain ⟨p', hp', h⟩ := @parseFrom_plain fields rest text (read ++ [c]) .plain (.inr rfl) htext
    refine ⟨p', hp', ?_⟩
    unfold special at hc
    rw [decide_eq_false_iff_not] at hc
    push Not at hc
    obtain ⟨h1, h2, h3, h4⟩ := hc
    rw [List.append_assoc] at h
    rw [List.cons_append]
    rcases hp with rfl | rfl
    · simpa [parseFrom, h1, h2, h3, h4] using h
    · simpa [parseFrom, h1, h2, h3, h4] using h

/-- The characters between quotes. -/
theorem parseFrom_quoted {fields : Record} {rest : List Char} : ∀ {text read : List Char},
    parseFrom .quoted read fields (doubled text ++ '"' :: rest) =
      parseFrom .closed (read ++ text) fields rest
  | [], read => by simp [doubled, parseFrom]
  | c :: text, read => by
    have ih := @parseFrom_quoted fields rest text (read ++ [c])
    rw [List.append_assoc] at ih
    unfold doubled at ih ⊢
    rw [List.flatMap_cons, List.append_assoc]
    by_cases hc : c = '"'
    · subst hc
      rw [if_pos rfl]
      simpa [parseFrom] using ih
    · rw [if_neg hc]
      simpa [parseFrom, hc] using ih

/-- A field and the comma behind it. -/
theorem parseFrom_comma {fields : Record} {rest text : List Char} :
    parseFrom .start [] fields (field text ++ ',' :: rest) =
      parseFrom .start [] (fields ++ [text]) rest := by
  unfold field
  by_cases h : text.any special = true
  · rw [if_pos h]
    have hq := @parseFrom_quoted fields (',' :: rest) text []
    simpa [parseFrom] using hq
  · rw [if_neg h]
    obtain ⟨p, hp, hread⟩ := @parseFrom_plain fields (',' :: rest) text [] .start (.inl rfl)
      (Bool.eq_false_iff.mpr h)
    rw [hread]
    rcases hp with rfl | rfl
    · simp [parseFrom]
    · simp [parseFrom]

/-- The last field of a record and the line feed behind it. -/
theorem parseFrom_newline {fields : Record} {rest text : List Char} :
    parseFrom .start [] fields (field text ++ '\n' :: rest) =
      (parse rest).map fun rs => (fields ++ [text]) :: rs := by
  unfold field parse
  by_cases h : text.any special = true
  · rw [if_pos h]
    have hq := @parseFrom_quoted fields ('\n' :: rest) text []
    simpa [parseFrom] using hq
  · rw [if_neg h]
    obtain ⟨p, hp, hread⟩ := @parseFrom_plain fields ('\n' :: rest) text [] .start (.inl rfl)
      (Bool.eq_false_iff.mpr h)
    rw [hread]
    rcases hp with rfl | rfl
    · simp [parseFrom]
    · simp [parseFrom]

theorem parseFrom_line {rest : List Char} : ∀ {texts fields : Record}, texts ≠ [] →
    parseFrom .start [] fields (line texts ++ rest) =
      (parse rest).map fun rs => (fields ++ texts) :: rs
  | [], _, h => absurd rfl h
  | [text], fields, _ => by
    unfold line joined
    rw [List.append_assoc]
    exact parseFrom_newline
  | text :: next :: texts, fields, _ => by
    have ih := @parseFrom_line rest (next :: texts) (fields ++ [text]) (by simp)
    unfold line at ih ⊢
    rw [joined, List.append_assoc, List.append_assoc, List.cons_append, parseFrom_comma,
      ← List.append_assoc, ih, List.append_assoc]
    · rfl
    · simp

/-- **What was written is read back**, record by record. -/
theorem parse_lines : ∀ {records : List Record}, (∀ r ∈ records, r ≠ []) →
    parse (records.flatMap line) = some records
  | [], _ => rfl
  | r :: rs, h => by
    rw [List.flatMap_cons, parse, parseFrom_line (h r List.mem_cons_self),
      parse_lines fun r hr => h r (List.mem_cons_of_mem _ hr)]
    rfl

/-! ## One line a record -/

/-- Without a line break in its fields a record has none before its end. -/
theorem joined_no_break {c : Char} (hc : c ≠ ',' ∧ c ≠ '"') : ∀ {texts : Record},
    (∀ text ∈ texts, c ∉ text) → c ∉ joined texts := by
  have hdoubled : ∀ text : List Char, c ∉ text → c ∉ doubled text := by
    intro text htext hin
    obtain ⟨d, hd, hcd⟩ := List.mem_flatMap.mp hin
    split at hcd
    · simp [hc.2] at hcd
    · rw [List.mem_singleton.mp hcd] at htext
      exact htext hd
  have hfield : ∀ text : List Char, c ∉ text → c ∉ field text := by
    intro text htext
    unfold field
    split
    · simp [hc.2, hdoubled text htext]
    · exact htext
  intro texts h
  induction texts with
  | nil => simp [joined]
  | cons text texts ih =>
    have hhead := hfield text (h text List.mem_cons_self)
    have htail := ih fun t ht => h t (List.mem_cons_of_mem _ ht)
    cases texts with
    | nil => exact hhead
    | cons next texts =>
      rw [joined]
      · simp only [List.mem_append, List.mem_cons, not_or]
        exact ⟨hhead, hc.1, htail⟩
      · simp

end Csv
