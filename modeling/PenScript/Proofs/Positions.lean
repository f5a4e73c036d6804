import Mathlib.Data.List.Basic
import PenScript.Color

/-!
# Positions in lists and texts

A list of even length can be taken apart into pairs.  Offsets into a text can
count its bytes; then not every offset is a place where the text can be cut, for
it may lie inside a character, or beyond the end.  Hexadecimal digits take one
byte each, so the channels of a color can be found by such offsets.
-/

namespace PenScript

/-! ### Pairs -/

namespace Pairs

variable {α : Type}

/-- The members of the pairs, one after the other. -/
def flatten (pairs : List (α × α)) : List α :=
  pairs.flatMap fun pair => [pair.1, pair.2]

@[simp] theorem flatten_cons (pair : α × α) (rest : List (α × α)) :
    flatten (pair :: rest) = pair.1 :: pair.2 :: flatten rest := rfl

@[simp] theorem flatten_append (pairs more : List (α × α)) :
    flatten (pairs ++ more) = flatten pairs ++ flatten more :=
  List.flatMap_append

theorem length_flatten (pairs : List (α × α)) :
    (flatten pairs).length = 2 * pairs.length := by
  induction pairs with
  | nil => rfl
  | cons pair rest ih =>
      simp only [flatten_cons, List.length_cons, ih]
      omega

theorem exists_flatten_of_length_eq {items : List α} {count : Nat}
    (even : items.length = 2 * count) :
    ∃ pairs : List (α × α), pairs.length = count ∧ items = flatten pairs := by
  induction count generalizing items with
  | zero => exact ⟨[], rfl, List.length_eq_zero_iff.mp even⟩
  | succ count ih =>
      obtain ⟨first, rest, rfl⟩ := List.exists_of_length_succ items even
      obtain ⟨second, rest, rfl⟩ :=
        List.exists_of_length_succ rest (Nat.succ.inj even)
      obtain ⟨pairs, length, rfl⟩ := ih (Nat.succ.inj (Nat.succ.inj even))
      exact ⟨(first, second) :: pairs, by rw [List.length_cons, length], rfl⟩

end Pairs

/-! ### Bytes -/

namespace Text

def byteLength : List Char → Nat
  | [] => 0
  | c :: rest => c.utf8Size + byteLength rest

/-- The text from a byte offset on, if it can be cut there. -/
def dropBytes? : Nat → List Char → Option (List Char)
  | 0, text => some text
  | _ + 1, [] => none
  | offset + 1, c :: rest =>
      if c.utf8Size ≤ offset + 1 then dropBytes? (offset + 1 - c.utf8Size) rest
        else none

/-- The text up to a byte offset, if it can be cut there. -/
def takeBytes? : Nat → List Char → Option (List Char)
  | 0, _ => some []
  | _ + 1, [] => none
  | offset + 1, c :: rest =>
      if c.utf8Size ≤ offset + 1 then
        (takeBytes? (offset + 1 - c.utf8Size) rest).map (c :: ·)
      else none

/-- The part of a text between two byte offsets. -/
def slice? (text : List Char) (start stop : Nat) : Option (List Char) :=
  if start ≤ stop then (dropBytes? start text).bind (takeBytes? (stop - start))
    else none

theorem byteLength_cons (c : Char) (text : List Char) :
    byteLength (c :: text) = c.utf8Size + byteLength text := rfl

theorem dropBytes?_zero (text : List Char) : dropBytes? 0 text = some text := by
  cases text <;> rfl

theorem takeBytes?_zero (text : List Char) : takeBytes? 0 text = some [] := by
  cases text <;> rfl

theorem dropBytes?_utf8Size_add (c : Char) (offset : Nat) (text : List Char) :
    dropBytes? (c.utf8Size + offset) (c :: text) = dropBytes? offset text := by
  obtain ⟨size, same⟩ :=
    Nat.exists_eq_succ_of_ne_zero (Nat.ne_of_gt c.utf8Size_pos)
  rw [same, Nat.succ_add, dropBytes?, if_pos (by omega)]
  congr 1
  omega

theorem takeBytes?_utf8Size_add (c : Char) (offset : Nat) (text : List Char) :
    takeBytes? (c.utf8Size + offset) (c :: text) =
      (takeBytes? offset text).map (c :: ·) := by
  obtain ⟨size, same⟩ :=
    Nat.exists_eq_succ_of_ne_zero (Nat.ne_of_gt c.utf8Size_pos)
  rw [same, Nat.succ_add, takeBytes?, if_pos (by omega)]
  congr 2
  omega

/-- A text can be cut after any of its beginnings. -/
theorem dropBytes?_byteLength_append (first rest : List Char) :
    dropBytes? (byteLength first) (first ++ rest) = some rest := by
  induction first with
  | nil => exact dropBytes?_zero rest
  | cons c first ih =>
      rw [byteLength_cons, List.cons_append, dropBytes?_utf8Size_add, ih]

theorem takeBytes?_byteLength_append (first rest : List Char) :
    takeBytes? (byteLength first) (first ++ rest) = some first := by
  induction first with
  | nil => exact takeBytes?_zero rest
  | cons c first ih =>
      rw [byteLength_cons, List.cons_append, takeBytes?_utf8Size_add, ih]
      rfl

theorem slice?_append (before middle after : List Char) :
    slice? (before ++ (middle ++ after)) (byteLength before)
      (byteLength before + byteLength middle) = some middle := by
  rw [slice?, if_pos (Nat.le_add_right _ _), dropBytes?_byteLength_append,
    Option.bind_some, Nat.add_sub_cancel_left, takeBytes?_byteLength_append]

theorem byteLength_of_single {text : List Char}
    (single : ∀ c ∈ text, c.utf8Size = 1) :
    byteLength text = text.length := by
  induction text with
  | nil => rfl
  | cons c text ih =>
      obtain ⟨here, later⟩ := List.forall_mem_cons.mp single
      rw [byteLength_cons, here, ih later, List.length_cons, Nat.add_comm]

end Text

namespace Color

/-- Whether a byte is the code of a hexadecimal digit. -/
def isHexByte (code : UInt8) : Bool :=
  (48 ≤ code && code ≤ 57) || (65 ≤ code && code ≤ 70) ||
    (97 ≤ code && code ≤ 102)

/-- Reads a number of hexadecimal digits as a byte. -/
def hexByte? (text : List Char) : Option UInt8 :=
  (text.mapM hexDigit?).map fun digits =>
    UInt8.ofNat (digits.foldl (fun value digit => 16 * value + digit) 0)

/-- The digits without the number sign that may precede them. -/
def unsigned (text : List Char) : List Char :=
  if text.head? = some '#' then text.tail else text

/-- The channel at a byte offset.  Here and in `ofHexBytes`, an offset where the
text cannot be cut is `none`, and a text that is not of the right form is `some
none`. -/
def channelAt (digits : List Char) (start : Nat) : OptionT Option UInt8 :=
  OptionT.mk ((Text.slice? digits start (start + 2)).map hexByte?)

/-- Reads hexadecimal digits by byte offsets. -/
def ofHexBytes (text : List Char) : OptionT Option Color :=
  let digits := unsigned text
  if (digits.flatMap String.utf8EncodeChar).all isHexByte then
    if Text.byteLength digits = 6 then do
      let red ← channelAt digits 0
      let green ← channelAt digits 2
      let blue ← channelAt digits 4
      return solid red green blue
    else if Text.byteLength digits = 8 then do
      let red ← channelAt digits 2
      let green ← channelAt digits 4
      let blue ← channelAt digits 6
      let alpha ← channelAt digits 0
      return ⟨red, green, blue, alpha⟩
    else failure
  else failure

/-! ### Digits and their bytes -/

theorem isHexByte_ofNat {code : Nat} (high : 128 ≤ code) (small : code < 256) :
    isHexByte (UInt8.ofNat code) = false := by
  have value : (UInt8.ofNat code).toNat = code := UInt8.toNat_ofNat_of_lt small
  simp only [isHexByte, UInt8.le_iff_toNat_le, value, UInt8.reduceToNat]
  simp only [Bool.or_eq_false_iff, Bool.and_eq_false_iff,
    decide_eq_false_iff_not]
  omega

theorem hexDigit?_of_not_ascii {c : Char} (beyond : ¬c.toNat < 128) :
    hexDigit? c = none := by
  have above (limit : Char) (ascii : limit.toNat < 128) : ¬c ≤ limit := by
    intro below
    have : c.toNat ≤ limit.toNat := below
    omega
  have digit : ¬c.isDigit := by
    intro digit
    have : c.toNat ≤ 57 := by
      simp only [Char.isDigit, Bool.and_eq_true, decide_eq_true_eq] at digit
      exact digit.2
    omega
  rw [hexDigit?, if_neg digit, if_neg, if_neg]
  · exact fun range => above 'F' (by decide) range.2
  · exact fun range => above 'f' (by decide) range.2

/-- The bytes of a character are codes of hexadecimal digits just if it is one:
the first byte of a character that takes several is too high for that. -/
theorem all_isHexByte_utf8EncodeChar (c : Char) :
    (String.utf8EncodeChar c).all isHexByte = (hexDigit? c).isSome := by
  by_cases inside : c.toNat < 128
  · have checked :
        ∀ code < 128, (String.utf8EncodeChar (Char.ofNat code)).all isHexByte =
        (hexDigit? (Char.ofNat code)).isSome := by decide
    have same := checked c.toNat inside
    rwa [Char.ofNat_toNat] at same
  · rw [hexDigit?_of_not_ascii inside]
    have beyond : ¬c.val.toNat ≤ 0x7f := by
      intro low
      exact inside (Nat.lt_succ_of_le low)
    unfold String.utf8EncodeChar
    dsimp only
    rw [if_neg beyond]
    split
    · rw [List.all_cons, isHexByte_ofNat (by omega) (by omega)]
      rfl
    · split
      · rw [List.all_cons, isHexByte_ofNat (by omega) (by omega)]
        rfl
      · rw [List.all_cons, isHexByte_ofNat (by omega) (by omega)]
        rfl

theorem utf8Size_of_hexDigit? {c : Char} (digit : (hexDigit? c).isSome = true) :
    c.utf8Size = 1 := by
  by_cases inside : c.toNat < 128
  · rw [Char.utf8Size_eq_one_iff, UInt32.le_iff_toNat_le]
    exact Nat.le_of_lt_succ inside
  · rw [hexDigit?_of_not_ascii inside] at digit
    cases digit

theorem all_isHexByte_iff {text : List Char} :
    (text.flatMap String.utf8EncodeChar).all isHexByte = true ↔
      ∀ c ∈ text, (hexDigit? c).isSome = true := by
  rw [List.all_flatMap, List.all_eq_true]
  simp only [all_isHexByte_utf8EncodeChar]

/-- The value of a hexadecimal digit. -/
def digitValue (c : Char) : Nat :=
  (hexDigit? c).getD 0

theorem mapM_hexDigit?_of_digits {text : List Char}
    (digits : ∀ c ∈ text, (hexDigit? c).isSome = true) :
    text.mapM hexDigit? = some (text.map digitValue) := by
  induction text with
  | nil => rfl
  | cons c text ih =>
      obtain ⟨here, later⟩ := List.forall_mem_cons.mp digits
      obtain ⟨digit, found⟩ := Option.isSome_iff_exists.mp here
      simp [ih later, found, digitValue]

theorem digits_of_mapM_hexDigit? {text : List Char} {values : List Nat}
    (found : text.mapM hexDigit? = some values) :
    ∀ c ∈ text, (hexDigit? c).isSome = true := by
  induction text generalizing values with
  | nil => simp
  | cons c text ih =>
      rw [List.mapM_cons, Option.bind_eq_bind, Option.bind_eq_some_iff] at found
      obtain ⟨digit, here, found⟩ := found
      rw [Option.bind_eq_bind, Option.bind_eq_some_iff] at found
      obtain ⟨rest, later, _⟩ := found
      exact List.forall_mem_cons.mpr ⟨by rw [here]; rfl, ih later⟩

/-! ### Channels -/

/-- The number sign makes no difference. -/
theorem ofHex?_unsigned (text : List Char) :
    ofHex? text = ofHex? ('#' :: unsigned text) := by
  cases text with
  | nil => rfl
  | cons c rest =>
      by_cases sign : c = '#'
      · subst sign
        rfl
      · have same : unsigned (c :: rest) = c :: rest := by simp [unsigned, sign]
        rw [same]
        simp [ofHex?, sign]

theorem ofHex?_eq_none {text : List Char}
    (other : ∀ values, text.mapM hexDigit? = some values →
      values.length ≠ 6 ∧ values.length ≠ 8) : ofHex? ('#' :: text) = none := by
  unfold ofHex?
  dsimp only
  split
  · next found => exact absurd rfl (other _ found).1
  · next found => exact absurd rfl (other _ found).2
  · rfl

/-- The byte that two hexadecimal digits stand for. -/
def pairByte (pair : Char × Char) : UInt8 :=
  byte (digitValue pair.1) (digitValue pair.2)

theorem hexByte?_pair {high low : Char}
    (highDigit : (hexDigit? high).isSome = true)
    (lowDigit : (hexDigit? low).isSome = true) :
    hexByte? [high, low] = some (pairByte (high, low)) := by
  have digits :
      [high, low].mapM hexDigit? = some [digitValue high, digitValue low] := by
    apply mapM_hexDigit?_of_digits
    simp [highDigit, lowDigit]
  simp [hexByte?, digits, pairByte, byte]

/-- A pair of digits after other pairs is a channel. -/
theorem channelAt_flatten {pairs : List (Char × Char)}
    (digits : ∀ c ∈ Pairs.flatten pairs, (hexDigit? c).isSome = true)
    (start : Nat) (before : List (Char × Char)) {pair : Char × Char}
    {after : List (Char × Char)} (whole : pairs = before ++ pair :: after)
    (offset : start = 2 * before.length) :
    channelAt (Pairs.flatten pairs) start = pure (pairByte pair) := by
  subst whole offset
  obtain ⟨high, low⟩ := pair
  rw [Pairs.flatten_append, Pairs.flatten_cons] at digits ⊢
  obtain ⟨digitsBefore, digitsAfter⟩ := List.forall_mem_append.mp digits
  obtain ⟨highDigit, digitsAfter⟩ := List.forall_mem_cons.mp digitsAfter
  obtain ⟨lowDigit, _⟩ := List.forall_mem_cons.mp digitsAfter
  have start : Text.byteLength (Pairs.flatten before) = 2 * before.length := by
    rw [Text.byteLength_of_single fun c member =>
      utf8Size_of_hexDigit? (digitsBefore c member), Pairs.length_flatten]
  have width : Text.byteLength [high, low] = 2 := by
    simp [Text.byteLength, utf8Size_of_hexDigit? highDigit,
      utf8Size_of_hexDigit? lowDigit]
  have slice :=
    Text.slice?_append (Pairs.flatten before) [high, low] (Pairs.flatten after)
  rw [start, width, List.cons_append, List.cons_append, List.nil_append]
      at slice
  rw [channelAt, slice, Option.map_some, hexByte?_pair highDigit lowDigit]
  rfl

theorem ofHex?_flatten_three {red green blue : Char × Char}
    (digits : ∀ c ∈ Pairs.flatten [red, green, blue],
      (hexDigit? c).isSome = true) :
    ofHex? ('#' :: Pairs.flatten [red, green, blue]) =
      some (solid (pairByte red) (pairByte green) (pairByte blue)) := by
  simp only [ofHex?, mapM_hexDigit?_of_digits digits]
  rfl

theorem ofHex?_flatten_four {alpha red green blue : Char × Char}
    (digits : ∀ c ∈ Pairs.flatten [alpha, red, green, blue],
      (hexDigit? c).isSome = true) :
    ofHex? ('#' :: Pairs.flatten [alpha, red, green, blue]) =
      some ⟨pairByte red, pairByte green, pairByte blue, pairByte alpha⟩ := by
  simp only [ofHex?, mapM_hexDigit?_of_digits digits]
  rfl

/-- Reading by byte offsets never meets one where the text cannot be cut, and so
it is the same as reading digit by digit. -/
theorem run_ofHexBytes (text : List Char) :
    (ofHexBytes text).run = some (ofHex? text) := by
  rw [ofHex?_unsigned, ofHexBytes]
  generalize unsigned text = text
  by_cases every : (text.flatMap String.utf8EncodeChar).all isHexByte = true
  · have digits := all_isHexByte_iff.mp every
    have length : Text.byteLength text = text.length :=
      Text.byteLength_of_single fun c member =>
        utf8Size_of_hexDigit? (digits c member)
    rw [if_pos every, length]
    by_cases six : text.length = 2 * 3
    · obtain ⟨pairs, three, rfl⟩ := Pairs.exists_flatten_of_length_eq six
      obtain ⟨red, green, blue, rfl⟩ := List.length_eq_three.mp three
      rw [if_pos six, channelAt_flatten digits 0 [] rfl rfl,
        channelAt_flatten digits 2 [red] rfl rfl,
        channelAt_flatten digits 4 [red, green] rfl rfl,
        ofHex?_flatten_three digits]
      rfl
    · by_cases eight : text.length = 2 * 4
      · obtain ⟨pairs, four, rfl⟩ := Pairs.exists_flatten_of_length_eq eight
        obtain ⟨alpha, red, green, blue, rfl⟩ := List.length_eq_four.mp four
        rw [if_neg six, if_pos eight,
          channelAt_flatten digits 2 [alpha] rfl rfl,
          channelAt_flatten digits 4 [alpha, red] rfl rfl,
          channelAt_flatten digits 6 [alpha, red, green] rfl rfl,
          channelAt_flatten digits 0 [] rfl rfl, ofHex?_flatten_four digits]
        rfl
      · rw [if_neg six, if_neg eight, ofHex?_eq_none]
        · rfl
        · intro values found
          cases found.symm.trans (mapM_hexDigit?_of_digits digits)
          rw [List.length_map]
          exact ⟨six, eight⟩
  · rw [if_neg every, ofHex?_eq_none]
    · rfl
    · intro values found
      exact absurd (all_isHexByte_iff.mpr (digits_of_mapM_hexDigit? found))
        every

end Color

end PenScript
