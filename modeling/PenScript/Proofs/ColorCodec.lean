import PenScript.Proofs.Formatting
import PenScript.Proofs.Positions

/-!
# Colors as they are written

A color in hexadecimal has two digits for each channel: red, green and blue if
it is solid, and alpha before these otherwise.  Digits of either case are read,
but lower case is written.  What is written is read back as the same color.
-/

namespace PenScript.Color

/-! ### Digits -/

/-- The hexadecimal digits, in the order of their values. -/
def hexDigits : List Char :=
  "0123456789abcdef".toList

/-- A hexadecimal digit of either case. -/
def IsHexDigit (c : Char) : Prop :=
  c.toLower ∈ hexDigits

instance : DecidablePred IsHexDigit :=
  fun c => inferInstanceAs (Decidable (c.toLower ∈ hexDigits))

/-- The place of a digit among the sixteen. -/
def hexValue (c : Char) : Nat :=
  hexDigits.idxOf c.toLower

theorem hexDigit?_eq (c : Char) :
    hexDigit? c = if IsHexDigit c then some (hexValue c) else none := by
  by_cases inside : c.toNat < 128
  · have checked : ∀ code < 128, hexDigit? (Char.ofNat code) =
        if IsHexDigit (Char.ofNat code) then some (hexValue (Char.ofNat code))
            else none := by
      decide +kernel
    have same := checked c.toNat inside
    rwa [Char.ofNat_toNat] at same
  · have ascii :
        hexDigits.all (fun digit => decide (digit.toNat < 128)) = true :=
      rfl
    have other : ¬IsHexDigit c := by
      rw [IsHexDigit, Text.toLower_of_not_ascii inside]
      exact fun digit =>
        inside (of_decide_eq_true (List.all_eq_true.mp ascii c digit))
    rw [hexDigit?_of_not_ascii inside, if_neg other]

theorem isSome_hexDigit? {c : Char} :
    (hexDigit? c).isSome = true ↔ IsHexDigit c := by
  rw [hexDigit?_eq]
  split <;> simp_all

theorem digitValue_of_isHexDigit {c : Char} (digit : IsHexDigit c) :
    digitValue c = hexValue c := by
  rw [digitValue, hexDigit?_eq, if_pos digit, Option.getD_some]

theorem hexValue_lt {c : Char} (digit : IsHexDigit c) : hexValue c < 16 :=
  List.idxOf_lt_length_of_mem digit

/-- Digits are written in lower case. -/
theorem digitChar_hexValue {c : Char} (digit : IsHexDigit c) :
    Nat.digitChar (hexValue c) = c.toLower := by
  have written :
      hexDigits.all
        (fun digit => Nat.digitChar (hexDigits.idxOf digit) == digit) = true :=
          rfl
  exact eq_of_beq (List.all_eq_true.mp written c.toLower digit)

theorem isHexDigit_digitChar {value : Nat} (small : value < 16) :
    IsHexDigit (Nat.digitChar value) ∧
    hexValue (Nat.digitChar value) = value := by
  have checked : ∀ value < 16,
      IsHexDigit (Nat.digitChar value) ∧ hexValue (Nat.digitChar value) =
        value := by decide
  exact checked value small

/-! ### Bytes -/

/-- Two digits stand for a byte, the one with more weight first. -/
structure Writes (high low : Char) (byte : UInt8) : Prop where
  highDigit : IsHexDigit high
  lowDigit : IsHexDigit low
  value : byte.toNat = 16 * hexValue high + hexValue low

theorem toNat_pairByte {high low : Char} (highDigit : IsHexDigit high)
    (lowDigit : IsHexDigit low) :
    (pairByte (high, low)).toNat = 16 * hexValue high + hexValue low := by
  have highSmall := hexValue_lt highDigit
  have lowSmall := hexValue_lt lowDigit
  rw [pairByte, digitValue_of_isHexDigit highDigit,
    digitValue_of_isHexDigit lowDigit, byte, UInt8.toNat_ofNat']
  omega

theorem writes_pairByte {high low : Char} (highDigit : IsHexDigit high)
    (lowDigit : IsHexDigit low) : Writes high low (pairByte (high, low)) :=
  ⟨highDigit, lowDigit, toNat_pairByte highDigit lowDigit⟩

theorem Writes.pairByte_eq {high low : Char} {byte : UInt8}
    (writes : Writes high low byte) :
    pairByte (high, low) = byte := by
  apply UInt8.toNat_inj.mp
  rw [toNat_pairByte writes.highDigit writes.lowDigit, writes.value]

theorem Writes.hexPair_eq {high low : Char} {byte : UInt8}
    (writes : Writes high low byte) :
    hexPair byte = [high.toLower, low.toLower] := by
  have lowSmall := hexValue_lt writes.lowDigit
  have quotient : byte.toNat / 16 = hexValue high := by
    rw [writes.value]
    omega
  have remainder : byte.toNat % 16 = hexValue low := by
    rw [writes.value]
    omega
  rw [hexPair, quotient, remainder, digitChar_hexValue writes.highDigit,
    digitChar_hexValue writes.lowDigit]

theorem writes_hexPair (byte : UInt8) :
    Writes (Nat.digitChar (byte.toNat / 16))
      (Nat.digitChar (byte.toNat % 16)) byte := by
  have bounded := byte.toNat_lt
  obtain ⟨highDigit, highValue⟩ :=
    isHexDigit_digitChar (show byte.toNat / 16 < 16 by omega)
  obtain ⟨lowDigit, lowValue⟩ :=
    isHexDigit_digitChar (show byte.toNat % 16 < 16 by omega)
  refine ⟨highDigit, lowDigit, ?_⟩
  rw [highValue, lowValue]
  omega

/-! ### Colors -/

/-- Digits stand for a color: three bytes for a solid one, or four with alpha
first. -/
inductive Spells (color : Color) : List Char → Prop
  | three {r₁ r₀ g₁ g₀ b₁ b₀ : Char} (red : Writes r₁ r₀ color.red)
      (green : Writes g₁ g₀ color.green) (blue : Writes b₁ b₀ color.blue)
      (alpha : color.alpha = 255) : Spells color [r₁, r₀, g₁, g₀, b₁, b₀]
  | four {a₁ a₀ r₁ r₀ g₁ g₀ b₁ b₀ : Char} (alpha : Writes a₁ a₀ color.alpha)
      (red : Writes r₁ r₀ color.red) (green : Writes g₁ g₀ color.green)
      (blue : Writes b₁ b₀ color.blue) :
        Spells color [a₁, a₀, r₁, r₀, g₁, g₀, b₁, b₀]

variable {color : Color} {digits : List Char}

theorem Spells.isHexDigit (spells : Spells color digits) :
    ∀ c ∈ digits, IsHexDigit c := by
  cases spells with
  | three red green blue alpha =>
      simp [red.highDigit, red.lowDigit, green.highDigit, green.lowDigit,
        blue.highDigit, blue.lowDigit]
  | four alpha red green blue =>
      simp [alpha.highDigit, alpha.lowDigit, red.highDigit, red.lowDigit,
        green.highDigit, green.lowDigit, blue.highDigit, blue.lowDigit]

theorem Spells.length_eq (spells : Spells color digits) :
    digits.length = 6 ∨ digits.length = 8 := by
  cases spells with
  | three => exact .inl rfl
  | four => exact .inr rfl

theorem Spells.ofHex?_eq (spells : Spells color digits) :
    ofHex? ('#' :: digits) = some color := by
  have every : ∀ c ∈ digits, (hexDigit? c).isSome = true := fun c member =>
    isSome_hexDigit?.mpr (spells.isHexDigit c member)
  cases spells with
  | @three r₁ r₀ g₁ g₀ b₁ b₀ red green blue alpha =>
      have read :
          ofHex? ('#' :: Pairs.flatten [(r₁, r₀), (g₁, g₀), (b₁, b₀)]) = _ :=
        ofHex?_flatten_three every
      rw [red.pairByte_eq, green.pairByte_eq, blue.pairByte_eq, solid, ← alpha]
          at read
      exact read
  | @four a₁ a₀ r₁ r₀ g₁ g₀ b₁ b₀ alpha red green blue =>
      have read :
          ofHex?
            ('#' :: Pairs.flatten [(a₁, a₀), (r₁, r₀), (g₁, g₀), (b₁, b₀)]) =
              _ :=
        ofHex?_flatten_four every
      rw [alpha.pairByte_eq, red.pairByte_eq, green.pairByte_eq,
        blue.pairByte_eq] at read
      exact read

/-- Six or eight digits stand for some color. -/
theorem exists_spells (every : ∀ c ∈ digits, IsHexDigit c)
    (length : digits.length = 6 ∨ digits.length = 8) :
    ∃ color, Spells color digits := by
  rcases length with six | eight
  · obtain ⟨pairs, three, rfl⟩ :=
      Pairs.exists_flatten_of_length_eq (show digits.length = 2 * 3 from six)
    obtain ⟨red, green, blue, rfl⟩ := List.length_eq_three.mp three
    simp only [Pairs.flatten_cons, List.forall_mem_cons] at every
    obtain ⟨r₁, r₀, g₁, g₀, b₁, b₀, _⟩ := every
    exact ⟨solid (pairByte red) (pairByte green) (pairByte blue),
      .three (writes_pairByte r₁ r₀) (writes_pairByte g₁ g₀)
        (writes_pairByte b₁ b₀) rfl⟩
  · obtain ⟨pairs, four, rfl⟩ :=
      Pairs.exists_flatten_of_length_eq (show digits.length = 2 * 4 from eight)
    obtain ⟨alpha, red, green, blue, rfl⟩ := List.length_eq_four.mp four
    simp only [Pairs.flatten_cons, List.forall_mem_cons] at every
    obtain ⟨a₁, a₀, r₁, r₀, g₁, g₀, b₁, b₀, _⟩ := every
    exact ⟨⟨pairByte red, pairByte green, pairByte blue, pairByte alpha⟩,
      .four (writes_pairByte a₁ a₀) (writes_pairByte r₁ r₀)
        (writes_pairByte g₁ g₀) (writes_pairByte b₁ b₀)⟩

theorem ofHex?_signed_iff :
    ofHex? ('#' :: digits) = some color ↔ Spells color digits := by
  refine ⟨?_, Spells.ofHex?_eq⟩
  intro found
  by_cases form :
    (∀ c ∈ digits, IsHexDigit c) ∧ (digits.length = 6 ∨ digits.length = 8)
  · obtain ⟨other, spells⟩ := exists_spells form.1 form.2
    cases found.symm.trans spells.ofHex?_eq
    exact spells
  · have unread : ofHex? ('#' :: digits) = none := by
      apply ofHex?_eq_none
      intro values read
      have every := digits_of_mapM_hexDigit? read
      have length : values.length = digits.length := by
        rw [mapM_hexDigit?_of_digits every] at read
        cases read
        exact List.length_map digitValue
      have digitsOnly : ∀ c ∈ digits, IsHexDigit c := fun c member =>
        isSome_hexDigit?.mp (every c member)
      have neither := not_or.mp fun right => form ⟨digitsOnly, right⟩
      rwa [← length] at neither
    rw [unread] at found
    cases found

theorem eq_unsigned (text : List Char) :
    text = unsigned text ∨ text = '#' :: unsigned text := by
  cases text with
  | nil => exact .inl rfl
  | cons c rest =>
      by_cases sign : c = '#'
      · subst sign
        exact .inr rfl
      · exact .inl (by simp [unsigned, sign])

theorem Spells.unsigned_eq (spells : Spells color digits) :
    unsigned digits = digits := by
  have noSign : ¬IsHexDigit '#' := by decide
  apply if_neg
  intro sign
  exact noSign (spells.isHexDigit '#' (List.mem_of_head? sign))

/-- The text is some digits, which a number sign may precede. -/
def Signed (digits text : List Char) : Prop :=
  text = digits ∨ text = '#' :: digits

/-- A number sign cannot be taken for a digit, because the number of digits is
even. -/
theorem Signed.unique {text others : List Char} (first : Signed digits text)
    (second : Signed others text) (eight : digits.length = 8)
    (even : others.length = 6 ∨ others.length = 8) : digits = others := by
  rcases first with rfl | rfl
  · rcases second with same | signed
    · exact same
    · rw [signed, List.length_cons] at eight
      omega
  · rcases second with unsigned | same
    · rw [← unsigned, List.length_cons] at even
      omega
    · exact (List.cons.inj same).2

theorem ofHex?_eq_some_iff {text : List Char} :
    ofHex? text = some color ↔ ∃ digits, Signed digits text ∧
    Spells color digits := by
  constructor
  · intro found
    rw [ofHex?_unsigned, ofHex?_signed_iff] at found
    exact ⟨unsigned text, eq_unsigned text, found⟩
  · rintro ⟨digits, rfl | rfl, spells⟩
    · rw [ofHex?_unsigned, spells.unsigned_eq]
      exact spells.ofHex?_eq
    · exact spells.ofHex?_eq

theorem isSome_ofHex?_iff {text : List Char} :
    (ofHex? text).isSome = true ↔
      ∃ digits, Signed digits text ∧ (digits.length = 6 ∨ digits.length = 8) ∧
        ∀ c ∈ digits, IsHexDigit c := by
  rw [Option.isSome_iff_exists]
  constructor
  · rintro ⟨color, found⟩
    obtain ⟨digits, signed, spells⟩ := ofHex?_eq_some_iff.mp found
    exact ⟨digits, signed, spells.length_eq, spells.isHexDigit⟩
  · rintro ⟨digits, signed, length, every⟩
    obtain ⟨color, spells⟩ := exists_spells every length
    exact ⟨color, ofHex?_eq_some_iff.mpr ⟨digits, signed, spells⟩⟩

/-! ### Writing -/

/-- All eight digits of a color. -/
theorem spells_text (color : Color) :
    ∃ digits, color.text.toList = '#' :: digits ∧ Spells color digits :=
  ⟨hexPair color.alpha ++ hexPair color.red ++ hexPair color.green ++
    hexPair color.blue, String.toList_ofList,
    .four (writes_hexPair _) (writes_hexPair _) (writes_hexPair _)
      (writes_hexPair _)⟩

/-- No name of a color starts with a number sign. -/
theorem named?_signed (rest : List Char) :
    named? (String.ofList ('#' :: rest)) = none := by
  have unsigned : ∀ entry ∈ palette, entry.1.toList.head? ≠ some '#' := by
    decide
  apply List.lookup_eq_none_iff.mpr
  intro entry member
  rw [bne_iff_ne]
  intro same
  apply unsigned entry member
  rw [← same, String.toList_ofList]
  rfl

theorem ofText?_text (color : Color) :
    ofText? color.text.toList = some color := by
  obtain ⟨digits, text, spells⟩ := spells_text color
  rw [text, ofText?, named?_signed, spells.ofHex?_eq]
  rfl

theorem Spells.text_eq (spells : Spells color digits)
    (eight : digits.length = 8) :
    color.text.toList = '#' :: digits.map Char.toLower := by
  cases spells with
  | three => cases eight
  | four alpha red green blue =>
      rw [text, String.toList_ofList, alpha.hexPair_eq, red.hexPair_eq,
        green.hexPair_eq, blue.hexPair_eq]
      rfl

/-- Hexadecimal is read exactly as it is spelled: six digits or eight, after a
number sign or none, with the bytes of the channels in order.  A color that is
written can be read back, and writing a color that was read from eight digits
gives these digits in lower case. -/
theorem hexadecimal_codec (text : List Char) (color : Color) :
    ((ofHex? text).isSome = true ↔
      ∃ digits, Signed digits text ∧ (digits.length = 6 ∨ digits.length = 8) ∧
        ∀ c ∈ digits, IsHexDigit c) ∧
    (ofHex? text = some color ↔ ∃ digits, Signed digits text ∧
      Spells color digits) ∧
    ofText? color.text.toList = some color ∧
    (ofHex? text = some color → ∀ digits, Signed digits text →
      digits.length = 8 →
      color.text.toList = '#' :: digits.map Char.toLower) := by
  refine ⟨isSome_ofHex?_iff, ofHex?_eq_some_iff, ofText?_text color, ?_⟩
  intro found digits signed eight
  obtain ⟨others, signedOthers, spells⟩ := ofHex?_eq_some_iff.mp found
  have same : digits = others :=
    signed.unique signedOthers eight spells.length_eq
  rw [same] at eight ⊢
  exact spells.text_eq eight

end PenScript.Color
