import PenScript.Proofs.Literals

/-!
# Declared names

A name that can be declared is spelled like no literal and like no keyword.
Once it is declared it stands for its variable wherever an operand can stand,
and at the start of an assignment.
-/

namespace PenScript

/-! ### Names are no literals -/

namespace Name

theorem startsWithDigit_of_check {name : String}
    (checked : check name = .ok ()) :
    Token.startsWithDigit name.toList = false := by
  cases starts : name.toList.head?.any Char.isDigit with
  | false => exact starts
  | true =>
      have some : name.toList.isEmpty = false := by
        cases text : name.toList with
        | nil =>
            rw [text] at starts
            cases starts
        | cons first rest => rfl
      have flawed : flaw? name = .some .leadingDigit := by
        simp [flaw?, some, starts]
      rw [check, flawed] at checked
      cases checked

/-- A number begins with a digit, a point or a sign, and a name does not. -/
theorem unshaped_of_check {name : String} (checked : check name = .ok ()) :
    Numeral.isShaped name.toList = false := by
  have identifier := (passed_of_check checked).1
  have noDigit := startsWithDigit_of_check checked
  apply Bool.eq_false_iff.mpr
  intro shaped
  rcases Numeral.unsigned_or_signed shaped with ⟨some, characters⟩ |
    ⟨number, signed, _⟩
  · obtain ⟨first, rest, text⟩ := List.exists_cons_of_ne_nil some
    rw [text] at identifier noDigit characters
    rcases characters first List.mem_cons_self with digit | rfl
    · exact Bool.false_ne_true (noDigit.symm.trans digit)
    · cases identifier
  · rw [signed] at identifier
    cases identifier

theorem noTruth_of_check {name : String} (checked : check name = .ok ()) :
    Literal.boolOfText? name.toList = none := by
  have unreserved := (passed_of_check checked).2.1
  have other (word : String) (reserved : isReserved word = true) :
      name.toList ≠ word.toList := by
    intro same
    rw [String.toList_injective same, reserved] at unreserved
    cases unreserved
  rw [Literal.boolOfText?, if_neg, if_neg]
  · rintro (same | same)
    · exact other "false" (by decide) same
    · exact other "off" (by decide) same
  · rintro (same | same)
    · exact other "true" (by decide) same
    · exact other "on" (by decide) same

theorem ofText?_of_check {name : String} (checked : check name = .ok ()) :
    Literal.ofText? name.toList = .ok none := by
  rw [Literal.ofText?, unshaped_of_check checked, (passed_of_check checked).2.2,
    noTruth_of_check checked]
  rfl

end Name

/-! ### Names as operands -/

namespace Value

section Operands

variable {name : String} {declared : String → Bool}
    (checked : Name.check name = .ok ()) (known : declared name = true)

include checked known

theorem ofWord_of_check :
    ofWord declared name.toList = .ok (.reference name) := by
  rw [ofWord, Name.ofText?_of_check checked]
  dsimp only
  rw [ofName, if_pos (Name.passed_of_check checked).1, String.ofList_toList]
  exact if_pos known

theorem parse_of_check :
    parse declared name.toList = .ok (.reference name) := by
  rw [parse_of_wordAt (.inl (Name.plain_of_check checked)),
    ofWord_of_check checked known]

/-- Reading never stops at a declared name: what comes after it decides. -/
theorem readOperand_of_check (malformed : ValueFault) (compared : Bool)
    (rest : List Token) :
    readOperand declared malformed compared (.word name.toList :: rest) =
      (readTail declared malformed compared rest).map (.reference name, ·) := by
  rw [readOperand, ofWord_of_check checked known]
  cases readTail declared malformed compared rest <;> rfl

end Operands

/-- A text that is tried as a literal is one word, but for a sign before a
number. -/
theorem plain_or_signed_of_ne {text : List Char}
    (tried : Literal.ofText? text ≠ .ok none) :
    Token.Plain text ∨ ∃ number, text = '-' :: number ∧
    Numeral.Unsigned number := by
  cases shaped : Numeral.isShaped text with
  | true =>
      exact (Numeral.unsigned_or_signed shaped).imp_left Numeral.Unsigned.plain
  | false =>
      cases read : Literal.ofText? text with
      | error fault =>
          rw [Literal.ofText?, shaped] at read
          cases read
      | ok found =>
          cases found with
          | none => exact absurd read tried
          | some result => exact Literal.plain_or_signed read

/-- The words of a text that is tried as a literal are numbers, or there is one
word only.  There are two tokens only where a point follows the sign, and then
the word begins with the point. -/
theorem ofText?_of_longer {text : List Char}
    (longer : 1 < (Token.scan text).length) {name : String}
    (checked : Name.check name = .ok ())
    (among : .word name.toList ∈ Token.scan text) :
    Literal.ofText? text = .ok none := by
  have single (word : Token.WordAt true text) : False := by
    rw [Token.scan_of_wordAt word] at longer
    exact Nat.lt_irrefl 1 longer
  by_contra tried
  rcases plain_or_signed_of_ne tried with plain | ⟨number, rfl, unsigned⟩
  · exact single (.inl plain)
  · have plain := unsigned.plain
    obtain ⟨first, digits, rfl⟩ := List.exists_cons_of_ne_nil unsigned.1
    rcases unsigned.2 first List.mem_cons_self with digit | rfl
    · exact single (.inr ⟨rfl, _, rfl, plain, digit⟩)
    · rw [Token.scan_minus_point plain] at among
      have point : name.toList = '.' :: digits := by simpa using among
      have identifier := (Name.passed_of_check checked).1
      rw [point] at identifier
      cases identifier

theorem parse_of_longer {declared : String → Bool} {text : List Char}
    (longer : 1 < (Token.scan text).length) {name : String}
    (checked : Name.check name = .ok ())
    (among : .word name.toList ∈ Token.scan text) :
    parse declared text = ofTokens declared (Text.trim text)
      (Token.scan text) := by
  have same := Token.scan_trim text
  have noLiteral : Literal.ofText? (Text.trim text) = .ok none :=
    ofText?_of_longer (by rwa [same]) checked (by rwa [same])
  unfold parse
  dsimp only
  rw [noLiteral, same]
  exact if_pos longer

/-- In an expression a declared name stands for its variable, at the same place.
Reading keeps tokens and operands in step, so what was read at the place is the
name alone. -/
theorem items_of_check {declared : String → Bool} {name : String}
    (checked : Name.check name = .ok ()) (known : declared name = true)
    {text : List Char} (longer : 1 < (Token.scan text).length) {value : Value}
    (read : parse declared text = .ok value) {index : Nat}
    (found : (Token.scan text)[index]? = some (.word name.toList)) :
    value.items[index]? = some (.operand (.reference name)) := by
  rw [parse_of_longer longer checked (List.mem_of_getElem? found)] at read
  have single : SingleWords declared (Token.scan text) :=
    singleWords_of_scanned fun token member => ⟨text, member⟩
  have written := ((ofTokens_eq_ok_iff single).mp read).2
  obtain ⟨inside, token⟩ := List.getElem?_eq_some_iff.mp found
  have insideItems : index < value.items.length := written.length_eq ▸ inside
  have writes := written.get inside insideItems
  rw [List.get_eq_getElem, List.get_eq_getElem, token] at writes
  rw [List.getElem?_eq_getElem insideItems]
  cases item : value.items[index] with
  | operator op =>
      rw [item] at writes
      cases writes
  | operand other =>
      rw [item] at writes
      cases writes with
      | operand readWord =>
          cases readWord.symm.trans (parse_of_check checked known)
          rfl

end Value

/-! ### Names at the start of a line -/

namespace Token

theorem pieces_ne_nil {text : List Char} {c : Char} (member : c ∈ text)
    (solid : Text.isBlank c = false) : pieces text ≠ [] := by
  have spaced :
      c ∈ text.flatMap fun c => if isGlyph c then [' ', c, ' '] else [c] := by
    refine List.mem_flatMap.mpr ⟨c, member, ?_⟩
    split <;> simp
  obtain ⟨field, among, inside⟩ := Text.mem_fields Text.isBlank spaced solid
  apply List.ne_nil_of_mem (a := field)
  rw [pieces, Text.words, List.mem_filter]
  exact ⟨among, by simpa using List.ne_nil_of_mem inside⟩

theorem scan_ne_nil {text : List Char} {c : Char} (member : c ∈ text)
    (solid : Text.isBlank c = false) : scan text ≠ [] := by
  obtain ⟨piece, rest, row⟩ :=
    List.exists_cons_of_ne_nil (pieces_ne_nil member solid)
  rw [scan, row]
  unfold ofPieces
  split
  · split <;> simp
  · split
    · split
      · simp
      · split <;> simp
    · split <;> simp

end Token

/-- A declared name is never taken for anything else.  By itself, and wherever
an operand stands in an expression, it is read as its variable; a line that sets
it is an assignment, and what stands behind the equals sign decides whether it
can be read. -/
theorem Name.unambiguous_of_declared {name : String} {store : Store}
    (checked : check name = .ok ()) (declared : store.contains name = true) :
    Value.parse store.contains name.toList = .ok (.reference name) ∧
    (∀ (malformed : ValueFault) (compared : Bool) (rest : List Token),
      Value.readOperand store.contains malformed compared
        (.word name.toList :: rest) =
        (Value.readTail store.contains malformed compared rest).map
          (.reference name, ·)) ∧
    (∀ (text : List Char) (value : Value) (index : Nat),
      1 < (Token.scan text).length →
      Value.parse store.contains text = .ok value →
      (Token.scan text)[index]? = some (.word name.toList) →
        value.items[index]? = some (.operand (.reference name))) ∧
    ∀ (line : Line) (text : List Char), (∃ c ∈ text, Text.isBlank c = false) →
      line.text = name.toList ++ [' ', '=', ' '] ++ text →
      (∀ value, Value.parse store.contains (Token.join (Token.scan text)) =
        .ok value →
        Command.ofLine line store = .ok (.assign name value) store) ∧
      ∀ fault, Value.parse store.contains (Token.join (Token.scan text)) =
        .error fault →
        Command.ofLine line store =
          .error ((Fault.value fault).at line.number "") store := by
  refine ⟨Value.parse_of_check checked declared,
    Value.readOperand_of_check checked declared,
    fun _ _ _ longer read found =>
      Value.items_of_check checked declared longer read found, ?_⟩
  rintro line text ⟨c, member, solid⟩ written
  have assigns : Command.Assigns line store name text :=
    ⟨checked, declared, written⟩
  have some := Token.scan_ne_nil member solid
  exact ⟨fun _ => assigns.ofLine_of_ok some,
    fun _ => assigns.ofLine_of_error some⟩

/-- With one more letter the name would be a color. -/
theorem Name.unambiguous_of_declared_hex :
    let name := "deadbee"
    let store := Store.empty.insert name none
    let line (text : List Char) : Line :=
      ⟨1, name.toList ++ [' ', '=', ' '] ++ text, ""⟩
    let difference := ['2', '-'] ++ name.toList
    let words := name.toList ++ ['f', ' '] ++ name.toList
    Value.parse store.contains name.toList = .ok (.reference name) ∧
    Command.ofLine (line difference) store =
      .ok (.assign name
        (.pending (.arithmetic .subtract) (.literal (.int 2))
          (.reference name))) store ∧
    Command.ofLine (line words) store =
      .error ((Fault.value (.unrecognised (String.ofList words))).at 1 "")
        store := by
  intro name store line difference words
  have checked : check name = .ok () := by decide +kernel
  have declared : store.contains name = true := by decide +kernel
  have two : ∃ c ∈ difference, Text.isBlank c = false :=
    ⟨'2', List.mem_cons_self, rfl⟩
  have letter : ∃ c ∈ words, Text.isBlank c = false :=
    ⟨'f', List.mem_append_left _ (List.mem_append_right _ List.mem_cons_self),
      rfl⟩
  have read : Value.parse store.contains (Token.join (Token.scan difference)) =
      .ok
        (.pending (.arithmetic .subtract) (.literal (.int 2))
          (.reference name)) := by
    decide +kernel
  have unread : Value.parse store.contains (Token.join (Token.scan words)) =
      .error (.unrecognised (String.ofList words)) := by
    decide +kernel
  obtain ⟨alone, _, _, assigned⟩ := unambiguous_of_declared checked declared
  exact ⟨alone, (assigned (line difference) difference two rfl).1 _ read,
    (assigned (line words) words letter rfl).2 _ unread⟩

end PenScript
