import PenScript.Proofs.Grammar
import PenScript.Proofs.Positions

/-!
# Literals in lines

A literal that is written as a parameter, or behind the equals sign of an
assignment, is taken apart into tokens before it is read.  It is read as what it
was, unless it is a negative number without a digit before its point: there the
sign is left as an operator, and the line is refused.
-/

namespace PenScript

/-! ### Characters -/

namespace Text

/-- The codes of all blanks. -/
def blankCodes : List Nat :=
  blankRanges.flatMap fun range => List.range' range.1 (range.2 - range.1 + 1)

/-- A property of all blanks can be tried on each of them. -/
theorem of_isBlank (holds : Char → Bool)
    (tried : (blankCodes.all fun code => holds (Char.ofNat code)) = true)
    {c : Char} (blank : isBlank c = true) : holds c = true := by
  obtain ⟨range, member, inside⟩ := List.any_eq_true.mp blank
  simp only [Bool.and_eq_true, decide_eq_true_eq] at inside
  have code : c.toNat ∈ blankCodes := by
    refine List.mem_flatMap.mpr ⟨range, member, List.mem_range'_1.mpr ?_⟩
    omega
  have held := List.all_eq_true.mp tried c.toNat code
  rwa [Char.ofNat_toNat] at held

/-- A character that does not separate fields is in one of them. -/
theorem mem_fields (isSeparator : Char → Bool) {text : List Char} {c : Char}
    (member : c ∈ text) (inside : isSeparator c = false) :
    ∃ field ∈ fields isSeparator text, c ∈ field := by
  induction text with
  | nil => cases member
  | cons first text ih =>
      rw [fields_cons]
      split
      · next separates =>
          rcases List.mem_cons.mp member with rfl | later
          · rw [inside] at separates
            cases separates
          · obtain ⟨field, among, found⟩ := ih later
            exact ⟨field, List.mem_cons_of_mem _ among, found⟩
      · cases parts : fields isSeparator text with
        | nil => exact absurd parts (fields_ne_nil isSeparator text)
        | cons field others =>
            rw [parts] at ih
            rcases List.mem_cons.mp member with rfl | later
            · exact ⟨c :: field, List.mem_cons_self, List.mem_cons_self⟩
            · obtain ⟨other, among, found⟩ := ih later
              rcases List.mem_cons.mp among with rfl | behind
              · exact ⟨first :: other, List.mem_cons_self,
                  List.mem_cons_of_mem _ found⟩
              · exact ⟨other, List.mem_cons_of_mem _ behind, found⟩

end Text

/-- Characters that are neither blanks nor glyphs make up a word. -/
theorem Token.plain_of_forall (allowed : Char → Bool)
    (noBlank :
      (Text.blankCodes.all fun code => !allowed (Char.ofNat code)) = true)
    (noGlyph :
      ['+', '-', '*', '/', '=', '>', '<', '!'].all (fun c => !allowed c) = true)
    {text : List Char} (some : text ≠ [])
    (every : ∀ c ∈ text, allowed c = true) : Plain text := by
  refine ⟨some, fun c member => ⟨?_, ?_⟩⟩
  · by_contra blank
    have refused :=
      Text.of_isBlank (fun c => !allowed c) noBlank (by simpa using blank)
    simp [every c member] at refused
  · by_contra glyph
    have refused :=
      of_isGlyph (fun c => !allowed c) noGlyph (by simpa using glyph)
    simp [every c member] at refused

/-- The spellings in a table of words are plain. -/
theorem Token.plain_of_lookup {α : Type} {table : List (String × α)}
    {text : List Char} {entry : α}
    (tried :
      table.all
        (fun entry => entry.1 != "" && entry.1.toList.all Char.isLower) = true)
    (found : table.lookup (String.ofList text) = some entry) : Plain text := by
  obtain ⟨before, after, split, _⟩ := List.lookup_eq_some_iff.mp found
  have member : (String.ofList text, entry) ∈ table := by
    rw [split]
    simp
  have letters := List.all_eq_true.mp tried _ member
  simp only [String.toList_ofList, Bool.and_eq_true, List.all_eq_true]
      at letters
  apply plain_of_forall Char.isLower rfl rfl _ letters.2
  rintro rfl
  cases letters.1

/-! ### The shape of literals -/

namespace Numeral

/-- The text is made of digits and points. -/
def Unsigned (text : List Char) : Prop :=
  text ≠ [] ∧ ∀ c ∈ text, c.isDigit = true ∨ c = '.'

/-- What is taken for a number is made of digits and points, but for the
sign. -/
theorem unsigned_or_signed {text : List Char} (shaped : isShaped text = true) :
    Unsigned text ∨ ∃ number, text = '-' :: number ∧ Unsigned number := by
  have unsigned : Unsigned (body text) := by
    simp only [isShaped, Bool.and_eq_true, List.all_eq_true, Bool.or_eq_true,
      beq_iff_eq] at shaped
    obtain ⟨⟨characters, digits⟩, _⟩ := shaped
    refine ⟨?_, characters⟩
    intro none
    rw [none] at digits
    cases digits
  unfold body at unsigned
  split at unsigned
  · next number => exact .inr ⟨number, rfl, unsigned⟩
  · exact .inl unsigned

theorem Unsigned.plain {text : List Char} (unsigned : Unsigned text) :
    Token.Plain text := by
  apply Token.plain_of_forall (fun c => c.isDigit || c == '.') rfl
    rfl unsigned.1
  simpa using unsigned.2

end Numeral

namespace Color

theorem plain_of_named? {text : List Char} {color : Color}
    (found : named? (String.ofList text) = some color) : Token.Plain text :=
  Token.plain_of_lookup rfl found

theorem mem_unsigned {text : List Char} {c : Char} (member : c ∈ text) :
    c ∈ unsigned text ∨ c = '#' := by
  unfold unsigned
  split
  · next sign =>
      obtain ⟨digits, rfl⟩ := List.head?_eq_some_iff.mp sign
      exact (List.mem_cons.mp member).symm
  · exact .inl member

theorem plain_of_ofHex? {text : List Char} {color : Color}
    (found : ofHex? text = some color) :
    Token.Plain text := by
  have digits : ∀ c ∈ unsigned text, (hexDigit? c).isSome = true := by
    rw [ofHex?_unsigned] at found
    cases read : (unsigned text).mapM hexDigit? with
    | none => simp [ofHex?, read] at found
    | some values => exact digits_of_mapM_hexDigit? read
  apply Token.plain_of_forall (fun c => (hexDigit? c).isSome || c == '#') rfl
    rfl
  · rintro rfl
    cases found
  · intro c member
    rcases mem_unsigned member with digit | rfl
    · simp [digits c digit]
    · rfl

theorem plain_of_ofText? {text : List Char} {color : Color}
    (found : ofText? text = some color) :
    Token.Plain text := by
  simp only [ofText?, Option.orElse_eq_orElse, Option.orElse_eq_or,
    Option.or_eq_some_iff] at found
  rcases found with named | ⟨_, hex⟩
  · exact plain_of_named? named
  · exact plain_of_ofHex? hex

end Color

namespace Literal

theorem plain_of_boolOfText? {text : List Char} {answer : Bool}
    (found : boolOfText? text = some answer) : Token.Plain text := by
  have spelling : text = ['t', 'r', 'u', 'e'] ∨ text = ['o', 'n'] ∨
      text = ['f', 'a', 'l', 's', 'e'] ∨ text = ['o', 'f', 'f'] := by
    unfold boolOfText? at found
    split_ifs at found with positive negative
    · exact positive.elim .inl fun on => .inr (.inl on)
    · exact .inr (.inr negative)
  rcases spelling with rfl | rfl | rfl | rfl
  all_goals
    exact Token.plain_of_forall Char.isLower rfl rfl (by simp)
      (List.all_eq_true.mp rfl)

/-- A literal is one word, but for a sign before a number. -/
theorem plain_or_signed {text : List Char} {result : Literal}
    (read : ofText? text = .ok (some result)) :
    Token.Plain text ∨ ∃ number, text = '-' :: number ∧
    Numeral.Unsigned number := by
  unfold ofText? at read
  split at read
  · next shaped =>
      exact (Numeral.unsigned_or_signed shaped).imp_left Numeral.Unsigned.plain
  · have found := Except.ok.inj read
    simp only [Option.orElse_eq_orElse, Option.orElse_eq_or,
      Option.or_eq_some_iff, Option.map_eq_some_iff] at found
    rcases found with ⟨color, named, _⟩ | ⟨_, answer, spelled, _⟩
    · exact .inl (Color.plain_of_ofText? named)
    · exact .inl (plain_of_boolOfText? spelled)

theorem wordAt_of_ofText? {text : List Char} {result : Literal}
    (read : ofText? text = .ok (some result)) (apart : ¬['-', '.'] <+: text) :
    Token.WordAt true text := by
  rcases plain_or_signed read with plain | ⟨number, rfl, unsigned⟩
  · exact .inl plain
  · refine .inr ⟨rfl, number, rfl, unsigned.plain, ?_⟩
    obtain ⟨first, rest, rfl⟩ := List.exists_cons_of_ne_nil unsigned.1
    rcases unsigned.2 first List.mem_cons_self with digit | rfl
    · exact digit
    · exact absurd (by simp) apart

theorem unsigned_of_signed {number : List Char} {result : Literal}
    (read : ofText? ('-' :: number) = .ok (some result)) :
    Numeral.Unsigned number := by
  rcases plain_or_signed read with plain | ⟨_, ⟨⟩, unsigned⟩
  · cases (plain.2 '-' List.mem_cons_self).2
  · exact unsigned

/-- A sign with a space behind it does not start a literal. -/
theorem ofText?_of_space (rest : List Char) :
    ofText? ('-' :: ' ' :: rest) = .ok none := by
  have noNumber : ¬Numeral.Unsigned (' ' :: rest) := by
    intro unsigned
    have space := unsigned.2 ' ' List.mem_cons_self
    simp at space
  have unshaped : Numeral.isShaped ('-' :: ' ' :: rest) = false := rfl
  cases read : ofText? ('-' :: ' ' :: rest) with
  | error fault =>
      rw [ofText?, unshaped] at read
      cases read
  | ok found =>
      cases found with
      | none => rfl
      | some result => exact absurd (unsigned_of_signed read) noNumber

end Literal

/-! ### Tokens of literals -/

namespace Token

theorem parameters_of_expressions {text : List Char} (single : ',' ∉ text)
    {tokens : List Token} (one : expressions (scan text) = [tokens]) :
    parameters text = [join tokens] := by
  have some : text ≠ [] := by
    rintro rfl
    cases one
  have apart : ∀ c ∈ text, (c == ',') = false := by
    intro c member
    apply beq_false_of_ne
    rintro rfl
    exact single member
  rw [parameters_eq some, Text.fields_of_free apart, List.flatMap_singleton,
    segmentParameters, one]
  rfl

/-- A sign before a point stays an operator. -/
theorem scan_minus_point {digits : List Char} (plain : Plain ('.' :: digits)) :
    scan ('-' :: '.' :: digits) =
      [.operator (.arithmetic .subtract), .word ('.' :: digits)] := by
  rw [scan, pieces_signed plain, ofPieces_minus, ofPieces_plain _ plain]
  · rfl
  · rintro next others ⟨⟩
    rfl

theorem join_scan_minus_point {digits : List Char}
    (plain : Plain ('.' :: digits)) :
    join (scan ('-' :: '.' :: digits)) = '-' :: ' ' :: '.' :: digits := by
  rw [scan_minus_point plain, join_cons_cons, join_singleton]
  rfl

theorem scan_assignment {name : List Char} (plain : Plain name)
    (text : List Char) :
    scan (name ++ [' ', '=', ' '] ++ text) =
      .word name :: .operator (.comparison .equal) :: scan text := by
  have space : Text.isBlank ' ' = true := rfl
  have split :
      name ++ [' ', '=', ' '] ++ text = name ++ ' ' :: '=' :: ' ' :: text := by
    simp
  rw [split, scan, pieces_append_blank space, pieces_of_plain plain,
    pieces_cons_glyph rfl, pieces_cons_blank space, List.singleton_append,
    ofPieces_plain _ plain, ofPieces_symbol _ rfl (by decide), scan]

end Token

/-! ### Assignments -/

namespace Name

theorem plain_of_check {name : String} (checked : check name = .ok ()) :
    Token.Plain name.toList := by
  obtain ⟨identifier, _⟩ := passed_of_check checked
  cases text : name.toList with
  | nil =>
      rw [text] at identifier
      cases identifier
  | cons first rest =>
      rw [text, isIdentifier, Bool.and_eq_true, List.all_eq_true] at identifier
      apply Token.plain_of_forall (fun c => c.isAlphanum || c == '_') rfl rfl
        (List.cons_ne_nil _ _)
      refine List.forall_mem_cons.mpr ⟨?_, identifier.2⟩
      rcases Bool.or_eq_true_iff.mp identifier.1 with letter | underscore
      · have alphanumeric :
            first.isAlphanum = (first.isAlpha || first.isDigit) :=
          rfl
        simp [alphanumeric, letter]
      · simp [underscore]

theorem ofWord?_of_check {name : String} (checked : check name = .ok ()) :
    Keyword.ofWord? name = none := by
  obtain ⟨_, unreserved, _⟩ := passed_of_check checked
  apply List.lookup_eq_none_iff.mpr
  intro entry member
  apply bne_iff_ne.mpr
  rintro rfl
  rw [isReserved, Bool.or_eq_false_iff] at unreserved
  have listed :=
    List.contains_iff_mem.mpr (List.mem_map_of_mem (f := Prod.fst) member)
  rw [unreserved.1] at listed
  cases listed

end Name

namespace Command

open Stateful

theorem ofText_assignment {name : String} (checked : Name.check name = .ok ())
    (text : List Char) :
    ofText (name.toList ++ [' ', '=', ' '] ++ text) =
      readAssignment name.toList (Token.scan text) := by
  rw [ofText, Token.scan_assignment (Name.plain_of_check checked)]
  dsimp only
  rw [if_pos]
  · rfl
  · rw [Token.text, String.ofList_toList, Name.ofWord?_of_check checked]
    rfl

variable {name : String} {store : Store}

theorem readAssignment_eq (checked : Name.check name = .ok ())
    (declared : store.contains name = true) {value : List Token}
    (some : value ≠ []) :
    readAssignment name.toList value store =
      (readValue .value (Token.join value) >>= fun value =>
        pure (.assign name value)) store := by
  have identifier := (Name.passed_of_check checked).1
  have filled : value.isEmpty = false := by simpa using some
  have found : (get : Parser Store) store = .ok store store := rfl
  unfold readAssignment
  rw [String.ofList_toList, identifier, filled]
  simp only [Bool.not_true, Bool.false_eq_true, if_false]
  rw [bind_of_ok found, declared]
  rfl

/-- The line assigns what is written in `text` to a declared variable. -/
structure Assigns (line : Line) (store : Store) (name : String)
    (text : List Char) : Prop where
  checked : Name.check name = .ok ()
  declared : store.contains name = true
  written : line.text = name.toList ++ [' ', '=', ' '] ++ text

section Lines

variable {line : Line} {text : List Char}
    (assigns : Assigns line store name text) (some : Token.scan text ≠ [])

include assigns some

theorem Assigns.ofText_eq :
    ofText line.text store =
      (readValue .value (Token.join (Token.scan text)) >>=
        fun value => pure (.assign name value)) store := by
  rw [assigns.written, ofText_assignment assigns.checked,
    readAssignment_eq assigns.checked assigns.declared some]

theorem Assigns.ofLine_of_ok {value : Value}
    (read :
      Value.parse store.contains (Token.join (Token.scan text)) = .ok value) :
    ofLine line store = .ok (.assign name value) store := by
  have found :
      readValue .value (Token.join (Token.scan text)) store =
        .ok value store := by
    rw [readValue, read]
  apply Command.ofLine_of_ok
  rw [assigns.ofText_eq some, bind_of_ok found]
  rfl

theorem Assigns.ofLine_of_error {fault : ValueFault}
    (unread : Value.parse store.contains (Token.join (Token.scan text)) =
      .error fault) :
    ofLine line store =
      .error ((Fault.value fault).at line.number "") store := by
  have found : readValue .value (Token.join (Token.scan text)) store =
      .error (.value fault) store := by
    rw [readValue, unread]
  apply Command.ofLine_of_error
  rw [assigns.ofText_eq some, bind_of_error found]

end Lines

end Command

/-! ### Literals in lines -/

namespace Value

theorem ofText?_of_parseLiteral {text : List Char}
    (free : ∀ c ∈ text, Text.isBlank c = false) {value : Value}
    (read : parseLiteral text = .ok value) :
    ∃ result, Literal.ofText? text = .ok (some result) ∧
      value = .literal result := by
  unfold parseLiteral at read
  rw [Text.trim_of_free free] at read
  dsimp only at read
  split at read
  · cases read
  · next result found =>
      cases read
      exact ⟨result, found, rfl⟩
  · cases read

/-- A sign that is left by itself before a number is no value. -/
theorem parse_minus_point (declared : String → Bool) {digits : List Char}
    (plain : Token.Plain ('.' :: digits)) :
    let text := '-' :: ' ' :: '.' :: digits
    parse declared text = .error (.unrecognised (String.ofList text)) := by
  intro text
  have trimmed : Text.trim text = text := by
    apply Text.trim_of_ends rfl
    rw [List.getLast?_cons_cons, List.getLast?_cons_cons]
    exact Text.getLast?_of_free fun c member => (plain.2 c member).1
  have scanned := Token.scan_join_scan ('-' :: '.' :: digits)
  rw [Token.join_scan_minus_point plain, Token.scan_minus_point plain]
      at scanned
  unfold parse
  rw [trimmed]
  dsimp only
  rw [Literal.ofText?_of_space, scanned]
  rfl

/-- A literal in a line is read as what it was, unless a sign stands before a
point: there the sign is torn off, and what is left is no value. -/
theorem literals_in_lines {text : List Char}
    (blankless : ∀ c ∈ text, Text.isBlank c = false) (commaless : ',' ∉ text)
    {value : Value} (isLiteral : parseLiteral text = .ok value)
    (store : Store) :
    (¬['-', '.'] <+: text →
      Token.parameters text = [text] ∧
      parse store.contains text = .ok value ∧
      ∀ name line, Command.Assigns line store name text →
        Command.ofLine line store = .ok (.assign name value) store) ∧
    ∀ digits, text = '-' :: '.' :: digits →
      let parameter := '-' :: ' ' :: '.' :: digits
      let fault := ValueFault.unrecognised (String.ofList parameter)
      Token.parameters text = [parameter] ∧
      parse store.contains parameter = .error fault ∧
      ∀ name line, Command.Assigns line store name text →
        Command.ofLine line store =
          .error ((Fault.value fault).at line.number "") store := by
  obtain ⟨result, found, rfl⟩ := ofText?_of_parseLiteral blankless isLiteral
  constructor
  · intro whole
    have word := Literal.wordAt_of_ofText? found whole
    have scanned := Token.scan_of_wordAt word
    have joined : Token.join (Token.scan text) = text := by
      rw [scanned, Token.join_singleton]; rfl
    have read : parse store.contains text = .ok (.literal result) := by
      rw [parse_of_wordAt word, ofWord, found]
    have single : Token.expressions (Token.scan text) = [Token.scan text] := by
      rw [scanned]; rfl
    refine ⟨?_, read, ?_⟩
    · rw [Token.parameters_of_expressions commaless single, joined]
    · intro name line assigns
      apply assigns.ofLine_of_ok
      · rw [scanned]
        exact List.cons_ne_nil _ _
      · rw [joined, read]
  · rintro digits rfl parameter fault
    have plain := (Literal.unsigned_of_signed found).plain
    have scanned := Token.scan_minus_point plain
    have joined : Token.join (Token.scan ('-' :: '.' :: digits)) = parameter :=
      Token.join_scan_minus_point plain
    have unread : parse store.contains parameter = .error fault :=
      parse_minus_point store.contains plain
    have single : Token.expressions (Token.scan ('-' :: '.' :: digits)) =
        [Token.scan ('-' :: '.' :: digits)] := by rw [scanned]; rfl
    refine ⟨?_, unread, ?_⟩
    · rw [Token.parameters_of_expressions commaless single, joined]
    · intro name line assigns
      apply assigns.ofLine_of_error
      · rw [scanned]
        exact List.cons_ne_nil _ _
      · rw [joined, unread]

/-- With a digit before its point the number is assigned; without one the line
is refused. -/
theorem literals_in_lines_minus_point :
    let store := Store.empty.insert "x" none
    let line (text : List Char) : Line :=
      ⟨1, 'x' :: ' ' :: '=' :: ' ' :: text, ""⟩
    let parameter := ['-', ' ', '.', '5']
    let fault := Fault.value (.unrecognised (String.ofList parameter))
    (∃ value, parseLiteral ['-', '0', '.', '5'] = .ok value ∧
      Token.parameters ['-', '0', '.', '5'] = [['-', '0', '.', '5']] ∧
      Command.ofLine (line ['-', '0', '.', '5']) store =
        .ok (.assign "x" value) store) ∧
    ∃ value, parseLiteral ['-', '.', '5'] = .ok value ∧
      Token.parameters ['-', '.', '5'] = [parameter] ∧
      Command.ofLine (line ['-', '.', '5']) store =
        .error (fault.at 1 "") store := by
  intro store line parameter fault
  have assigns (text : List Char) :
      Command.Assigns (line text) store "x" text :=
    ⟨rfl, rfl, rfl⟩
  have free (text : List Char) (tried : text.any Text.isBlank = false) :
      ∀ c ∈ text, Text.isBlank c = false := by
    simpa using tried
  constructor
  · obtain ⟨parameters, _, read⟩ :=
      (literals_in_lines (free ['-', '0', '.', '5'] rfl)
        (by decide) rfl store).1 (by decide)
    exact ⟨_, rfl, parameters, read "x" _ (assigns _)⟩
  · obtain ⟨parameters, _, unread⟩ :=
      (literals_in_lines (free ['-', '.', '5'] rfl) (by decide) rfl store).2
        ['5'] rfl
    exact ⟨_, rfl, parameters, unread "x" _ (assigns _)⟩

end Value

end PenScript
