import DedupCommando.Path

/-!
# Text and its bytes

A pathname that was read as text is the encoding of it; what is shown of it is the text again.

* `utf8` — the bytes of a text.
* `isUtf8_utf8`, `lossyUtf8_utf8`, `display_utf8` — an encoding is well formed, and the lossy
  conversion gives the text back.
* `terminalChar`, `toList_terminal` — `textsan::terminal` character by character.
-/

set_option autoImplicit false

namespace DedupCommando

/-! ## Encoding -/

def byteOf (x : UInt8) : Byte := Fin.ofNat 256 x.toNat

/-- The bytes of a text. -/
def utf8 (text : String) : Bytes := text.toByteArray.data.toList.map byteOf

theorem utf8_eq (text : String) :
    utf8 text = text.toList.flatMap fun c => (String.utf8EncodeChar c).map byteOf := by
  unfold utf8
  conv_lhs => rw [← String.ofList_toList (s := text), String.toByteArray_ofList]
  unfold List.utf8Encode
  rw [List.data_toByteArray, List.map_flatMap]

theorem byteOf_val {n : Nat} (h : n < 256) : (byteOf (UInt8.ofNat n)).val = n := by
  unfold byteOf
  simp [Fin.ofNat, Nat.mod_eq_of_lt h]

theorem isUtf8_one {a : Byte} (rest : Bytes) (ha : a < 0x80) : isUtf8 (a :: rest) = isUtf8 rest := by
  rw [isUtf8.eq_def]
  simp [ha]

theorem isUtf8_two {a b : Byte} (rest : Bytes) (ha : ¬a < 0x80) (htwo : leadsTwo a = true)
    (hb : isContinuation b = true) : isUtf8 (a :: b :: rest) = isUtf8 rest := by
  rw [isUtf8.eq_def]
  simp [ha, htwo, hb]

theorem isUtf8_three {a b c : Byte} (rest : Bytes) (ha : ¬a < 0x80) (htwo : leadsTwo a = false)
    (hthree : leadsThree a b = true) (hc : isContinuation c = true) :
    isUtf8 (a :: b :: c :: rest) = isUtf8 rest := by
  rw [isUtf8.eq_def]
  simp [ha, htwo, hthree, hc]

theorem isUtf8_four {a b c d : Byte} (rest : Bytes) (ha : ¬a < 0x80) (htwo : leadsTwo a = false)
    (hthree : leadsThree a b = false) (hfour : leadsFour a b = true) (hc : isContinuation c = true)
    (hd : isContinuation d = true) : isUtf8 (a :: b :: c :: d :: rest) = isUtf8 rest := by
  rw [isUtf8.eq_def]
  simp [ha, htwo, hthree, hfour, hc, hd]

/-- Well-formed text stays well formed behind one more character. -/
theorem isUtf8_char (c : Char) (rest : Bytes) :
    isUtf8 ((String.utf8EncodeChar c).map byteOf ++ rest) = isUtf8 rest := by
  have hvalid : c.val.toNat < 0xD800 ∨ 0xDFFF < c.val.toNat ∧ c.val.toNat < 0x110000 := c.valid
  have hcont : ∀ n : Nat, isContinuation (byteOf (UInt8.ofNat (n % 0x40 + 0x80))) = true := by
    intro n
    have hval := byteOf_val (n := n % 0x40 + 0x80) (by omega)
    unfold isContinuation
    rw [decide_eq_true_eq, Fin.le_def, Fin.le_def, hval]
    exact ⟨by change 0x80 ≤ _; omega, by change _ ≤ 0xBF; omega⟩
  unfold String.utf8EncodeChar
  dsimp only
  generalize c.val.toNat = v at hvalid
  split
  · rename_i h
    refine isUtf8_one rest ?_
    rw [Fin.lt_def, byteOf_val (by omega)]
    change _ < 0x80
    omega
  · split
    · rename_i h0 h
      have hval := byteOf_val (n := v / 64 % 0x20 + 0xc0) (by omega)
      have hge : ¬byteOf (UInt8.ofNat (v / 64 % 0x20 + 0xc0)) < 0x80 := by
        rw [Fin.lt_def, hval]
        change ¬_ < 0x80
        omega
      have hlead : leadsTwo (byteOf (UInt8.ofNat (v / 64 % 0x20 + 0xc0))) = true := by
        unfold leadsTwo
        rw [decide_eq_true_eq, Fin.le_def, Fin.le_def, hval]
        exact ⟨by change 0xC2 ≤ _; omega, by change _ ≤ 0xDF; omega⟩
      exact isUtf8_two rest hge hlead (hcont v)
    · split
      · rename_i h0 h1 h
        have hval := byteOf_val (n := v / 4096 % 0x10 + 0xe0) (by omega)
        have hval' := byteOf_val (n := v / 64 % 0x40 + 0x80) (by omega)
        have hge : ¬byteOf (UInt8.ofNat (v / 4096 % 0x10 + 0xe0)) < 0x80 := by
          rw [Fin.lt_def, hval]
          change ¬_ < 0x80
          omega
        have hlead : leadsTwo (byteOf (UInt8.ofNat (v / 4096 % 0x10 + 0xe0))) = false := by
          unfold leadsTwo
          rw [decide_eq_false_iff_not, Fin.le_def, Fin.le_def, hval]
          rintro ⟨-, h⟩
          change _ ≤ 0xDF at h
          omega
        have hthree : leadsThree (byteOf (UInt8.ofNat (v / 4096 % 0x10 + 0xe0)))
            (byteOf (UInt8.ofNat (v / 64 % 0x40 + 0x80))) = true := by
          unfold leadsThree
          rw [hcont, Bool.true_and, decide_eq_true_eq, Fin.le_def, Fin.le_def, Fin.ext_iff,
            Fin.ext_iff, Fin.le_def, Fin.le_def, hval, hval']
          refine ⟨by change 0xE0 ≤ _; omega, by change _ ≤ 0xEF; omega, fun he => ?_, fun he => ?_⟩
          · change _ = 0xE0 at he
            change 0xA0 ≤ _
            omega
          · change _ = 0xED at he
            change _ ≤ 0x9F
            omega
        exact isUtf8_three rest hge hlead hthree (hcont v)
      · rename_i h0 h1 h
        have hval := byteOf_val (n := v / 262144 % 0x08 + 0xf0) (by omega)
        have hval' := byteOf_val (n := v / 4096 % 0x40 + 0x80) (by omega)
        have hge : ¬byteOf (UInt8.ofNat (v / 262144 % 0x08 + 0xf0)) < 0x80 := by
          rw [Fin.lt_def, hval]
          change ¬_ < 0x80
          omega
        have hlead : leadsTwo (byteOf (UInt8.ofNat (v / 262144 % 0x08 + 0xf0))) = false := by
          unfold leadsTwo
          rw [decide_eq_false_iff_not, Fin.le_def, Fin.le_def, hval]
          rintro ⟨-, h⟩
          change _ ≤ 0xDF at h
          omega
        have hthree : leadsThree (byteOf (UInt8.ofNat (v / 262144 % 0x08 + 0xf0)))
            (byteOf (UInt8.ofNat (v / 4096 % 0x40 + 0x80))) = false := by
          unfold leadsThree
          rw [hcont, Bool.true_and, decide_eq_false_iff_not, Fin.le_def, Fin.le_def, hval]
          rintro ⟨-, h, -⟩
          change _ ≤ 0xEF at h
          omega
        have hfour : leadsFour (byteOf (UInt8.ofNat (v / 262144 % 0x08 + 0xf0)))
            (byteOf (UInt8.ofNat (v / 4096 % 0x40 + 0x80))) = true := by
          unfold leadsFour
          rw [hcont, Bool.true_and, decide_eq_true_eq, Fin.le_def, Fin.le_def, Fin.ext_iff,
            Fin.ext_iff, Fin.le_def, Fin.le_def, hval, hval']
          refine ⟨by change 0xF0 ≤ _; omega, by change _ ≤ 0xF4; omega, fun he => ?_, fun he => ?_⟩
          · change _ = 0xF0 at he
            change 0x90 ≤ _
            omega
          · change _ = 0xF4 at he
            change _ ≤ 0x8F
            omega
        exact isUtf8_four rest hge hlead hthree hfour (hcont (v / 64)) (hcont v)

/-- **The encoding of a text is well formed.** -/
theorem isUtf8_utf8 (text : String) : isUtf8 (utf8 text) = true := by
  rw [utf8_eq]
  induction text.toList with
  | nil => rfl
  | cons c cs ih => rw [List.flatMap_cons, isUtf8_char, ih]

theorem lossyUtf8_utf8 (text : String) : lossyUtf8 (utf8 text) = utf8 text :=
  lossyUtf8_of_isUtf8 _ (isUtf8_utf8 text)

/-- **What is shown of an encoding is its text.** -/
theorem display_utf8 (text : String) : Bytes.display (utf8 text) = text := by
  unfold Bytes.display
  have hbytes : ((utf8 text).map fun x => UInt8.ofNat x.val).toArray = text.toByteArray.data := by
    unfold utf8
    rw [List.map_map]
    have hid : ((fun x : Byte => UInt8.ofNat x.val) ∘ byteOf) = id := by
      funext x
      unfold byteOf
      apply UInt8.toNat_inj.mp
      simp [Fin.ofNat]
    rw [hid, List.map_id]
  rw [lossyUtf8_utf8, hbytes]
  unfold String.fromUTF8?
  rw [dif_pos text.isValidUTF8]
  rfl

/-! ## Control characters -/

/-- `char::is_control` -/
def isControl (c : Char) : Bool := decide (c.val < 32 ∨ (127 ≤ c.val ∧ c.val ≤ 159))

/-- `escape_default` of a control character. -/
def escapeControl (c : Char) : String :=
  if c = '\n' then "\\n" else if c = '\r' then "\\r" else if c = '\t' then "\\t"
  else "\\u" ++ "\x7b" ++ String.ofList (Nat.toDigits 16 c.toNat) ++ "\x7d"

/-- One character as it is shown. -/
def terminalChar (c : Char) : List Char := if isControl c then (escapeControl c).toList else [c]

theorem toList_terminal (text : String) : (terminal text).toList = text.toList.flatMap terminalChar := by
  have hstep : ∀ (cs : List Char) (out : String),
      (cs.foldl (fun out c =>
        if c.val < 32 ∨ (127 ≤ c.val ∧ c.val ≤ 159) then
          out ++ (if c = '\n' then "\\n" else if c = '\r' then "\\r" else if c = '\t' then "\\t"
            else "\\u" ++ "\x7b" ++ String.ofList (Nat.toDigits 16 c.toNat) ++ "\x7d")
        else out.push c) out).toList = out.toList ++ cs.flatMap terminalChar := by
    intro cs
    induction cs with
    | nil => intro out; simp
    | cons c cs ih =>
      intro out
      rw [List.foldl_cons, ih, List.flatMap_cons]
      unfold terminalChar isControl
      by_cases h : c.val < 32 ∨ (127 ≤ c.val ∧ c.val ≤ 159)
      · rw [if_pos h, if_pos (decide_eq_true h), String.toList_append, List.append_assoc]
        rfl
      · rw [if_neg h, if_neg (by simpa using h), String.toList_push, List.append_assoc]
  exact hstep text.toList ""

end DedupCommando
