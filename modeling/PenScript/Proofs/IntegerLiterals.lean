import Mathlib.Data.List.TakeWhile
import Mathlib.Data.Nat.Digits.Defs
import PenScript.Proofs.ColorCodec
import PenScript.Proofs.Integers
import PenScript.Proofs.Leniency
import PenScript.Proofs.RefusedLines

/-!
# Integers as they are written

Digits with an optional minus sign are an integer.  It is read exactly if it
fits into 64 bits and refused otherwise, by itself as well as in a script.  As
each machine integer is written in this way, it is read back as it was.  There
is one exception: the digits are counted in a 32-bit word, and where this has
come round to zero, the text is not taken for a number and is refused.
-/

namespace PenScript

/-- An integer as it is written: digits, and a minus sign before them if it is
negative. -/
structure IntegerText where
  negative : Bool
  digits : List Char
  nonempty : digits ≠ []
  decimal : ∀ c ∈ digits, c.isDigit = true

/-- A property of all digits can be tried on each of them. -/
theorem of_isDigit (holds : Char → Bool)
    (tried : "0123456789".toList.all holds = true) {c : Char}
    (digit : c.isDigit = true) :
    holds c = true := by
  simp only [Char.isDigit, Bool.and_eq_true, decide_eq_true_eq,
    UInt32.le_iff_toNat_le] at digit
  have codes :
      ∀ code < 58, 48 ≤ code → Char.ofNat code ∈ "0123456789".toList := by
    decide
  have member := codes c.toNat (Nat.lt_succ_of_le digit.2) digit.1
  rw [Char.ofNat_toNat] at member
  exact List.all_eq_true.mp tried c member

/-- Reading digits from the left gives the value of each in its place. -/
theorem ofDigitChars_eq_ofDigits (digits : List Char) :
    Nat.ofDigitChars 10 digits 0 =
      Nat.ofDigits 10 (digits.reverse.map fun c => c.toNat - '0'.toNat) := by
  induction digits with
  | nil => rfl
  | cons c digits ih =>
      rw [Nat.ofDigitChars_cons, Nat.ofDigitChars_eq_ofDigitChars_zero, ih,
        List.reverse_cons, List.map_append, Nat.ofDigits_append]
      simp [Nat.add_comm]

/-! ### Counts of characters -/

namespace Numeral

theorem count_eq (isCounted : Char → Bool) (text : List Char) :
    count isCounted text = UInt32.ofNat (text.countP isCounted) := by
  have counted (total : UInt32) :
      text.foldl (fun total c => if isCounted c then total + 1 else total)
        total =
        total + UInt32.ofNat (text.countP isCounted) := by
    induction text generalizing total with
    | nil => simp
    | cons c rest ih =>
        rw [List.foldl_cons, ih, List.countP_cons]
        split <;> simp [UInt32.add_assoc, UInt32.add_comm 1]
  exact (counted 0).trans (UInt32.zero_add _)

/-- The word is at zero again whenever it has been full. -/
theorem count_eq_zero_iff {isCounted : Char → Bool} {text : List Char} :
    count isCounted text = 0 ↔ 4294967296 ∣ text.countP isCounted := by
  rw [count_eq, ← UInt32.toNat_inj, UInt32.toNat_ofNat',
    Nat.dvd_iff_mod_eq_zero]
  rfl

end Numeral

/-- Neither a name of a color nor its hexadecimal form is long. -/
theorem Color.ofText?_of_long {text : List Char} (long : 11 < text.length) :
    ofText? text = none := by
  have noName : named? (String.ofList text) = none := by
    cases found : named? (String.ofList text) with
    | none => rfl
    | some color =>
        obtain ⟨before, after, split, _⟩ := List.lookup_eq_some_iff.mp found
        have member : (String.ofList text, color) ∈ palette := by simp [split]
        have tried :
            palette.all (fun entry => entry.1.toList.length ≤ 11) = true :=
          rfl
        have short := List.all_eq_true.mp tried _ member
        simp at short
        omega
  have noDigits : ofHex? text = none := by
    apply Option.not_isSome_iff_eq_none.mp
    intro found
    obtain ⟨digits, signed, length, _⟩ := isSome_ofHex?_iff.mp found
    rcases signed with rfl | rfl
    · omega
    · rw [List.length_cons] at long
      omega
  rw [ofText?, noName, noDigits]
  rfl

theorem Literal.boolOfText?_of_long {text : List Char}
    (long : 11 < text.length) :
    boolOfText? text = none := by
  rw [boolOfText?, if_neg, if_neg]
  · rintro (rfl | rfl) <;> simp at long
  · rintro (rfl | rfl) <;> simp at long

/-- Lower case changes no character of ASCII but capitals. -/
theorem Text.lower_of_ascii {text : List Char}
    (unchanged : ∀ c ∈ text, c.toNat < 128 ∧ c.toLower = c) :
    lower text = text := by
  suffices ∀ before, lowerFrom before text = text from this []
  induction text with
  | nil => intro before; rfl
  | cons c rest ih =>
      intro before
      obtain ⟨⟨ascii, small⟩, later⟩ := List.forall_mem_cons.mp unchanged
      have noSigma : c ≠ '\u03A3' := by
        rintro rfl
        exact absurd ascii (by decide)
      simp [lowerFrom, noSigma, lowerChar, ascii, small, ih later]

namespace IntegerText

def text (written : IntegerText) : List Char :=
  if written.negative then '-' :: written.digits else written.digits

/-- The digits weighted by powers of ten, with the sign. -/
def value (written : IntegerText) : Int :=
  let magnitude : Nat :=
    Nat.ofDigits 10 (written.digits.reverse.map fun c => c.toNat - '0'.toNat)
  if written.negative then -(magnitude : Int) else magnitude

/-! ### Reading -/

variable (written : IntegerText)

theorem text_ne_nil : written.text ≠ [] := by
  unfold text
  split
  · exact List.cons_ne_nil _ _
  · exact written.nonempty

theorem plain_digits : Token.Plain written.digits :=
  Numeral.Unsigned.plain
    ⟨written.nonempty, fun c member => .inl (written.decimal c member)⟩

theorem exists_first_digit :
    ∃ c rest, written.digits = c :: rest ∧ c.isDigit = true := by
  obtain ⟨c, rest, split⟩ := List.exists_cons_of_ne_nil written.nonempty
  exact ⟨c, rest, split, written.decimal c (by simp [split])⟩

theorem startsWithDigit_digits :
    Token.startsWithDigit written.digits = true := by
  obtain ⟨c, rest, split, digit⟩ := written.exists_first_digit
  simpa [Token.startsWithDigit, split] using digit

/-- The sign is part of the word. -/
theorem wordAt : Token.WordAt true written.text := by
  unfold text
  cases written.negative with
  | false => exact .inl written.plain_digits
  | true =>
      exact .inr ⟨rfl, _, rfl, written.plain_digits,
        written.startsWithDigit_digits⟩

theorem signless_digits (rest : List Char) : written.digits ≠ '-' :: rest := by
  intro signed
  have digit := written.decimal '-' (by simp [signed])
  cases digit

theorem pointless_digits : ∀ c ∈ written.digits, (c == '.') = false :=
  fun c member => by
    simpa using of_isDigit (fun c => !(c == '.')) rfl (written.decimal c member)

theorem body_text : Numeral.body written.text = written.digits := by
  unfold text
  cases written.negative with
  | true => rfl
  | false =>
      unfold Numeral.body
      split
      · next signed => exact absurd signed (written.signless_digits _)
      · rfl

/-- The text is taken for a number unless the count of its digits is at zero. -/
theorem isShaped_text :
    Numeral.isShaped written.text = true ↔
      ¬4294967296 ∣ written.digits.length := by
  have characters :
      written.digits.all (fun c => c.isDigit || c == '.') = true :=
    List.all_eq_true.mpr fun c member => by simp [written.decimal c member]
  have digits : written.digits.countP Char.isDigit = written.digits.length :=
    List.countP_eq_length.mpr written.decimal
  have points : Numeral.count (· == '.') written.digits = 0 := by
    have none : written.digits.countP (· == '.') = 0 :=
      List.countP_eq_zero.mpr fun c member => by
        simpa using written.pointless_digits c member
    rw [Numeral.count_eq_zero_iff, none]
    exact Nat.dvd_zero _
  simp only [Numeral.isShaped, body_text, characters, points, Bool.true_and,
    Bool.and_eq_true, bne_iff_ne, ne_eq, Numeral.count_eq_zero_iff, digits]
  simp

theorem ofUnsigned?_digits (negative : Bool) :
    Numeral.ofUnsigned? negative written.digits =
      some ⟨negative, written.digits, none⟩ := by
  have digits : written.digits.all Char.isDigit = true := by
    simpa using written.decimal
  simp [Numeral.ofUnsigned?, Text.fields_of_free written.pointless_digits,
    digits, written.nonempty]

theorem ofText?_text :
    Numeral.ofText? written.text =
      some ⟨written.negative, written.digits, none⟩ := by
  unfold text
  cases written.negative with
  | true => exact written.ofUnsigned?_digits true
  | false =>
      unfold Numeral.ofText?
      split
      · next signed => exact absurd signed (written.signless_digits _)
      · exact written.ofUnsigned?_digits false

theorem wholeValue_eq :
    (Numeral.mk written.negative written.digits none).wholeValue =
      written.value := by
  simp only [Numeral.wholeValue, value, ofDigitChars_eq_ofDigits]

theorem literal_of_value (counted : ¬4294967296 ∣ written.digits.length)
    {n : Int64} (value : n.toInt = written.value) :
    Literal.ofText? written.text = .ok (some (.int n)) := by
  rw [Literal.ofText?, if_pos (written.isShaped_text.mpr counted)]
  simp only [Literal.ofNumber, ofText?_text, Literal.ofNumeral, wholeValue_eq,
    int64?_eq_some_iff.mpr value]
  rfl

theorem literal_of_not_fitsWord (counted : ¬4294967296 ∣ written.digits.length)
    (outside : ¬FitsWord written.value) :
    Literal.ofText? written.text =
      .error (.malformedNumber (String.ofList written.text)) := by
  rw [Literal.ofText?, if_pos (written.isShaped_text.mpr counted)]
  simp only [Literal.ofNumber, ofText?_text, Literal.ofNumeral, wholeValue_eq,
    int64?_of_not_fitsWord outside]
  rfl

/-- So many digits are not taken for a literal of any kind. -/
theorem literal_of_uncounted (uncounted : 4294967296 ∣ written.digits.length) :
    Literal.ofText? written.text = .ok none := by
  have some : 0 < written.digits.length :=
    List.length_pos_iff.mpr written.nonempty
  have many := Nat.le_of_dvd some uncounted
  have long : 11 < written.text.length := by
    unfold text
    split
    · rw [List.length_cons]
      omega
    · omega
  rw [Literal.ofText?,
    if_neg (fun shaped => written.isShaped_text.mp shaped uncounted),
    Color.ofText?_of_long long, Literal.boolOfText?_of_long long]
  rfl

theorem isIdentifier_text : Name.isIdentifier written.text = false := by
  unfold text
  cases written.negative with
  | true => rfl
  | false =>
      obtain ⟨c, rest, split, digit⟩ := written.exists_first_digit
      have noLetter := of_isDigit (fun c => !(c.isAlpha || c == '_')) rfl digit
      simp only [Bool.not_eq_true'] at noLetter
      simp [split, Name.isIdentifier, noLetter]

/-- What is not a literal is still a bad number, as it starts with a digit. -/
theorem unreadable_text :
    Value.unreadable written.text =
      .malformedNumber (String.ofList written.text) := by
  have signless : written.digits.dropWhile (· == '-') = written.digits := by
    obtain ⟨c, rest, split, digit⟩ := written.exists_first_digit
    have other := of_isDigit (fun c => !(c == '-')) rfl digit
    simp only [Bool.not_eq_true'] at other
    rw [split, List.dropWhile_cons, other]
    rfl
  have behind : written.text.dropWhile (· == '-') = written.digits := by
    unfold text
    split
    · exact signless
    · exact signless
  rw [Value.unreadable, behind, if_pos written.startsWithDigit_digits]

/-! #### Values -/

theorem parse_of_value (counted : ¬4294967296 ∣ written.digits.length)
    {n : Int64} (value : n.toInt = written.value) (declared : String → Bool) :
    Value.parse declared written.text = .ok (.literal (.int n)) := by
  rw [Value.parse_of_wordAt written.wordAt, Value.ofWord,
    written.literal_of_value counted value]

/-- No integer has the value, or the digits are not counted. -/
def Refused : Prop :=
  ¬FitsWord written.value ∨ 4294967296 ∣ written.digits.length

variable {written} in
theorem parse_of_refused (refused : written.Refused)
    (declared : String → Bool) :
    Value.parse declared written.text =
      .error (.malformedNumber (String.ofList written.text)) := by
  rw [Value.parse_of_wordAt written.wordAt, Value.ofWord]
  by_cases uncounted : 4294967296 ∣ written.digits.length
  · rw [written.literal_of_uncounted uncounted]
    dsimp only
    rw [Value.ofName, written.isIdentifier_text, written.unreadable_text]
    rfl
  · rw [written.literal_of_not_fitsWord uncounted
      (refused.resolve_right uncounted)]

theorem trim_text : Text.trim written.text = written.text :=
  Text.trim_of_free (Token.isBlank_of_wordAt written.wordAt)

theorem parseLiteral_of_value (counted : ¬4294967296 ∣ written.digits.length)
    {n : Int64} (value : n.toInt = written.value) :
    Value.parseLiteral written.text = .ok (.literal (.int n)) := by
  rw [Value.parseLiteral, trim_text]
  simp only [written.literal_of_value counted value]

variable {written} in
theorem parseLiteral_of_refused (refused : written.Refused) :
    Value.parseLiteral written.text =
      .error (.malformedNumber (String.ofList written.text)) := by
  rw [Value.parseLiteral, trim_text]
  by_cases uncounted : 4294967296 ∣ written.digits.length
  · simp only [written.literal_of_uncounted uncounted, written.unreadable_text]
  · simp only [written.literal_of_not_fitsWord uncounted
      (refused.resolve_right uncounted)]

/-! ### Writing -/

/-- The decimal notation of an integer. -/
def ofInt (n : Int) : IntegerText where
  negative := n < 0
  digits := Nat.toDigits 10 n.natAbs
  nonempty := Nat.toDigits_ne_nil
  decimal _ member := Nat.isDigit_of_mem_toDigits (by decide) (by decide) member

theorem value_ofInt (n : Int) : (ofInt n).value = n := by
  simp only [value, ofInt, ← ofDigitChars_eq_ofDigits,
    Nat.ofDigitChars_ten_toDigits, decide_eq_true_eq]
  split <;> omega

/-- No machine integer has more than nineteen digits. -/
theorem counted_ofInt (n : Int64) :
    ¬4294967296 ∣ (ofInt n.toInt).digits.length := by
  have above := Int64.minValue_le_toInt n
  have below := Int64.toInt_le n
  rw [Int64.toInt_minValue] at above
  rw [Int64.toInt_maxValue] at below
  have short := Nat.repr_length n.toInt.natAbs 19 (by decide) (by omega)
  have some : 0 < (ofInt n.toInt).digits.length :=
    List.length_pos_iff.mpr (ofInt n.toInt).nonempty
  have same :
      (Nat.repr n.toInt.natAbs).length = (ofInt n.toInt).digits.length := by
    simp [Nat.repr, ofInt]
  intro uncounted
  have many := Nat.le_of_dvd some uncounted
  omega

theorem text_ofInt (n : Int) : (ofInt n).text = (toString n).toList := by
  rw [Int.toString_eq_repr, Int.repr_eq_if]
  by_cases negative : n < 0
  · have magnitude : (-n).toNat = n.natAbs := by omega
    simp [text, ofInt, negative, magnitude, Int.not_le.mpr negative]
  · have magnitude : n.toNat = n.natAbs := by omega
    simp [text, ofInt, negative, magnitude, Int.not_lt.mp negative]

/-! ### Declarations -/

/-- A script that declares a variable with the written value. -/
def declaration : String :=
  "var x = " ++ String.ofList written.text

theorem toList_declaration :
    written.declaration.toList = "var x = ".toList ++ written.text := by
  simp [declaration]

/-- A property of all characters in the script can be tried on each of them. -/
theorem of_mem_declaration (holds : Char → Bool)
    (tried : ("var x = ".toList ++ '-' :: "0123456789".toList).all holds = true)
    {c : Char} (member : c ∈ written.declaration.toList) : holds c = true := by
  rw [List.all_append, List.all_cons, Bool.and_eq_true, Bool.and_eq_true]
      at tried
  obtain ⟨letters, sign, numbers⟩ := tried
  have digits : ∀ c ∈ written.digits, holds c = true := fun c later =>
    of_isDigit holds numbers (written.decimal c later)
  rw [toList_declaration, List.mem_append] at member
  rcases member with start | stop
  · exact List.all_eq_true.mp letters c start
  · unfold text at stop
    split at stop
    · rcases List.mem_cons.mp stop with rfl | later
      · exact sign
      · exact digits c later
    · exact digits c stop

theorem trim_append_text {start : List Char}
    (begins : start.head?.any Text.isBlank = false) (nonempty : start ≠ []) :
    Text.trim (start ++ written.text) = start ++ written.text := by
  apply Text.trim_of_ends
  · rwa [List.head?_append_of_ne_nil _ nonempty]
  · rw [List.getLast?_append_of_ne_nil _ written.text_ne_nil]
    exact Text.getLast?_of_free (Token.isBlank_of_wordAt written.wordAt)

theorem ofSource_declaration :
    Line.ofSource written.declaration =
      [⟨1, "var x = ".toList ++ written.text, written.declaration⟩] := by
  have tried (holds : Char → Bool) := written.of_mem_declaration holds
  have row :
      Text.fields (· == '\n') written.declaration.toList =
        [written.declaration.toList] :=
    Text.fields_of_free fun c member => by
    simpa using tried (fun c => !(c == '\n')) rfl member
  have lower :
      Text.lower written.declaration.toList = written.declaration.toList :=
    Text.lower_of_ascii fun c member => by
      simpa using tried (fun c => decide (c.toNat < 128 ∧ c.toLower = c))
        (by decide) member
  have trimmed :
      Text.trim written.declaration.toList = written.declaration.toList := by
    rw [toList_declaration]
    exact written.trim_append_text rfl (by decide)
  have code :
      Line.code written.declaration.toList = written.declaration.toList := by
    have comment : written.declaration.toList.takeWhile (fun c => !(c == '@')) =
        written.declaration.toList :=
      List.takeWhile_eq_self_iff.mpr fun c member =>
        tried (fun c => !(c == '@')) rfl member
    rw [Line.code, Text.cut, comment, trimmed]
  have nonempty : written.declaration.toList.isEmpty = false := by
    rw [toList_declaration]
    rfl
  rw [Line.ofSource, row, ← toList_declaration]
  simp only [List.zipIdx_singleton, List.filterMap_cons, List.filterMap_nil,
    Line.ofNumbered?, code, lower, trimmed, String.ofList_toList, nonempty]
  rfl

theorem ofText_declaration (store : Store) :
    Command.ofText ("var x = ".toList ++ written.text) store =
      Command.readDeclaration
        [.word ['x'], .operator (.comparison .equal), .word written.text]
          store := by
  have split : Line.split ("var x = ".toList ++ written.text) =
      ("var".toList, "x = ".toList ++ written.text) := by
    have rest :
        Text.trim ("x = ".toList ++ written.text) =
          "x = ".toList ++ written.text :=
      written.trim_append_text rfl (by decide)
    have cut : Text.cut Text.isBlank ("var x = ".toList ++ written.text) =
        ("var".toList, some ("x = ".toList ++ written.text)) := rfl
    simp only [Line.split, cut, rest]
  have scanned : Token.scan ("x = ".toList ++ written.text) =
      [.word ['x'], .operator (.comparison .equal), .word written.text] := by
    rw [← Token.scan_of_wordAt written.wordAt]
    have checked : Name.check "x" = .ok () := rfl
    exact Token.scan_assignment (Name.plain_of_check checked) written.text
  have keyword : Keyword.ofWord? (String.ofList "var".toList) = some .var := rfl
  rw [Command.ofText_of_keyword, Command.readKeyword, split]
  · simp only [keyword, scanned]
  · rw [split]
    exact keyword

open Stateful

theorem readInitialValue_eq :
    Command.readInitialValue "x" [.operator (.comparison .equal),
      .word written.text] =
      (Command.readValue .value written.text >>= fun value =>
        pure (some value)) := by
  rw [Command.readInitialValue, Token.join_singleton]
  · rfl
  · rintro ⟨⟩

/-- Only the value of the declaration can be wrong. -/
theorem ofText_eq :
    Command.ofText ("var x = ".toList ++ written.text) .empty =
      (Command.readValue .value written.text >>= fun value =>
        Command.declareName "x" >>= fun _ => pure (.declare "x" (some value)))
          Store.empty := by
  have declared : Command.ofText ("var x = ".toList ++ written.text) .empty =
      (Command.readInitialValue "x" [.operator (.comparison .equal),
        .word written.text] >>=
        fun value => Command.declareName "x" >>= fun _ =>
          pure (.declare "x" value)) Store.empty := by
    rw [ofText_declaration]
    rfl
  rw [declared, readInitialValue_eq, bind_assoc]
  rfl

/-- The script is read as a declaration with the value. -/
theorem parse_declaration_of_ok {value : Value}
    (read : Value.parse Store.empty.contains written.text = .ok value) :
    Program.parse written.declaration .empty =
      ⟨⟨[.leaf (.declare "x" (some value)) 1], []⟩, none,
        Store.empty.insert "x" none⟩ := by
  have found :
      Command.readValue .value written.text Store.empty = .ok value .empty := by
    rw [Command.readValue, read]
  have line :
      Command.ofLine ⟨1, "var x = ".toList ++ written.text, written.declaration⟩
        .empty =
      .ok (.declare "x" (some value)) (Store.empty.insert "x" none) := by
    apply Command.ofLine_of_ok
    rw [ofText_eq, bind_of_ok found]
    rfl
  rw [Program.parse, ofSource_declaration, Program.parseLines, line]
  rfl

/-- The script is refused at its only line. -/
theorem parse_declaration_of_error {fault : ValueFault}
    (unread : Value.parse Store.empty.contains written.text = .error fault) :
    Program.parse written.declaration .empty =
      ⟨.empty, some ((Fault.value fault).at 1 written.declaration),
        .empty⟩ := by
  have refused : Command.readValue .value written.text Store.empty =
      .error (.value fault) .empty := by
    rw [Command.readValue, unread]
  have line :
      Command.ofLine ⟨1, "var x = ".toList ++ written.text, written.declaration⟩
        .empty =
      .error ((Fault.value fault).at 1 "") .empty := by
    apply Command.ofLine_of_error
    rw [ofText_eq, bind_of_error refused]
  rw [Program.parse, ofSource_declaration, Program.parseLines, line]
  rfl

end IntegerText

namespace Session

variable {written : IntegerText} (session : Session)

theorem run_declaration_of_value (counted : ¬4294967296 ∣ written.digits.length)
    {n : Int64} (value : n.toInt = written.value) :
    (session.run written.declaration).1 = .ok () ∧
      (session.run written.declaration).2.store.value? "x" =
        some (.literal (.int n)) := by
  have parsed :=
    written.parse_declaration_of_ok (written.parse_of_value counted value _)
  have loaded : session.load written.declaration =
      (.ok 1, { session with
        program := ⟨[.leaf (.declare "x" (some (.literal (.int n)))) 1], []⟩
        store := Store.empty.insert "x" none }) := by
    simp only [load, parsed]
    rfl
  rw [run_of_load_ok loaded]
  exact ⟨rfl, rfl⟩

/-- There is nothing to execute before the line that fails. -/
theorem run_declaration_of_refused (refused : written.Refused) :
    (session.run written.declaration).1 =
      .error ((Fault.value (.malformedNumber (String.ofList written.text))).at 1
        written.declaration) := by
  have parsed :=
    written.parse_declaration_of_error (IntegerText.parse_of_refused refused _)
  have unread :=
    Program.compile_eq_error_iff.mpr (congrArg Program.Parsed.failure parsed)
  cases leniency : session.config.leniency with
  | strict => rw [run_of_compile_error_strict unread leniency]
  | pardon =>
      obtain ⟨program, executed⟩ := run_of_compile_error_pardon unread leniency
      have idle : (session.load written.declaration).2.execute.1 = .ok () := by
        simp only [execute, program, parsed]
        rfl
      rw [executed, idle]
      rfl

end Session

/-! ### Exact reading -/

/-- The text stands for the integer, whether variables are known or not, and a
script gives the integer to a variable. -/
structure ReadsAs (text : List Char) (n : Int64) : Prop where
  value : ∀ declared, Value.parse declared text = .ok (.literal (.int n))
  literal : Value.parseLiteral text = .ok (.literal (.int n))
  script : ∀ session : Session,
    let run := session.run ("var x = " ++ String.ofList text)
    run.1 = .ok () ∧ run.2.store.value? "x" = some (.literal (.int n))

/-- The text is a malformed number, whether variables are known or not, and a
script that gives it to a variable fails at that line. -/
structure Malformed (text : List Char) : Prop where
  value :
    ∀ declared,
      Value.parse declared text = .error (.malformedNumber (String.ofList text))
  literal :
    Value.parseLiteral text = .error (.malformedNumber (String.ofList text))
  script : ∀ session : Session, ∃ failure,
    (session.run ("var x = " ++ String.ofList text)).1 = .error failure ∧
      failure.code.text = "P002" ∧ failure.line = 1

namespace IntegerText

variable {written : IntegerText}

theorem readsAs_of_value (counted : ¬4294967296 ∣ written.digits.length)
    {n : Int64} (value : n.toInt = written.value) : ReadsAs written.text n where
  value := written.parse_of_value counted value
  literal := written.parseLiteral_of_value counted value
  script session := by
    rw [← declaration]
    exact session.run_declaration_of_value counted value

theorem malformed_of_refused (refused : written.Refused) :
    Malformed written.text where
  value := parse_of_refused refused
  literal := parseLiteral_of_refused refused
  script session := by
    rw [← declaration]
    exact ⟨_, session.run_declaration_of_refused refused, rfl, rfl⟩

theorem not_malformed_of_readsAs {text : List Char} {n : Int64}
    (reads : ReadsAs text n) :
    ¬Malformed text := by
  intro malformed
  cases malformed.literal.symm.trans reads.literal

/-- An integer is read as the machine integer with its decimal value, and is
malformed if there is none.  This holds for every number of digits but the
multiples of `2 ^ 32`: there the digits are counted as none, and the integer is
malformed whatever its value.  The decimal notation of a machine integer is read
as that integer. -/
theorem reads_exactly (written : IntegerText) (n : Int64) :
    (ReadsAs written.text n ↔
      n.toInt = written.value ∧ ¬4294967296 ∣ written.digits.length) ∧
    (Malformed written.text ↔
      ¬FitsWord written.value ∨ 4294967296 ∣ written.digits.length) ∧
    ReadsAs (intText n).toList n := by
  have read (fits : FitsWord written.value)
      (counted : ¬4294967296 ∣ written.digits.length) :
      ∃ m : Int64, m.toInt = written.value ∧ ReadsAs written.text m := by
    have same := int64?_eq_some_iff.mp (int64?_of_fitsWord fits)
    exact ⟨_, same, readsAs_of_value counted same⟩
  refine ⟨⟨?_, fun ⟨value, counted⟩ => readsAs_of_value counted value⟩,
    ⟨?_, malformed_of_refused⟩, ?_⟩
  · intro reads
    by_cases refused : written.Refused
    · exact absurd (malformed_of_refused refused)
        (not_malformed_of_readsAs reads)
    · obtain ⟨fits, counted⟩ := not_or.mp refused
      obtain ⟨m, same, again⟩ := read (not_not.mp fits) counted
      cases reads.literal.symm.trans again.literal
      exact ⟨same, counted⟩
  · intro malformed
    by_contra accepted
    obtain ⟨fits, counted⟩ := not_or.mp accepted
    obtain ⟨m, _, reads⟩ := read (not_not.mp fits) counted
    exact not_malformed_of_readsAs reads malformed
  · have value : n.toInt = (ofInt n.toInt).value := (value_ofInt n.toInt).symm
    rw [intText, ← text_ofInt]
    exact readsAs_of_value (counted_ofInt n) value

/-- The digit zero, written many times. -/
def zeros (more : Nat) : IntegerText where
  negative := false
  digits := List.replicate (more + 1) '0'
  nonempty := List.cons_ne_nil _ _
  decimal c member := by
    rw [List.eq_of_mem_replicate member]
    rfl

theorem value_zeros (more : Nat) : (zeros more).value = 0 := by
  simp [value, zeros, Nat.ofDigits_replicate_zero]

/-- With `2 ^ 32` digits, zero is malformed. -/
theorem reads_exactly_zeros :
    (0 : Int64).toInt = (zeros 4294967295).value ∧
    Malformed (zeros 4294967295).text ∧ ¬ReadsAs (zeros 4294967295).text 0 := by
  have uncounted : 4294967296 ∣ (zeros 4294967295).digits.length := by
    rw [zeros, List.length_replicate]
  obtain ⟨reads, malformed, _⟩ := reads_exactly (zeros 4294967295) 0
  refine ⟨(value_zeros _).symm, malformed.mpr (.inr uncounted), fun read => ?_⟩
  exact (reads.mp read).2 uncounted

end IntegerText

end PenScript
