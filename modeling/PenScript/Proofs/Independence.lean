import PenScript.Proofs.Grammar
import PenScript.Proofs.Lines

/-!
# Meaning does not depend on declarations

What is declared decides whether a text can be read, and not what it means.  A
text that can be read is read as the same value where more is declared; two
readings of one line that both succeed give the same command.
-/

namespace PenScript

open Stateful

namespace Value

/-! ### More declarations -/

section Wider

variable {declared wider : String → Bool}
  (included : ∀ name, declared name = true → wider name = true)

include included

theorem ofName_of_wider {text : List Char} {value : Value}
    (read : ofName declared text = .ok value) :
    ofName wider text = .ok value := by
  unfold ofName at read ⊢
  dsimp only at read ⊢
  split
  · next identifier =>
      rw [if_pos identifier] at read
      split at read
      · next known => rwa [if_pos (included _ known)]
      · cases read
  · next other =>
      rw [if_neg other] at read
      cases read

theorem ofWord_of_wider {text : List Char} {value : Value}
    (read : ofWord declared text = .ok value) :
    ofWord wider text = .ok value := by
  unfold ofWord at read ⊢
  cases tried : Literal.ofText? text with
  | error fault =>
      rw [tried] at read
      cases read
  | ok found =>
      rw [tried] at read
      cases found with
      | some result => exact read
      | none => exact ofName_of_wider included read

theorem readTail_of_wider {malformed : ValueFault} (tail : Tail)
    {compared : Bool} {tokens : List Token}
    (read : readTail declared malformed compared tokens = .ok tail) :
    readTail wider malformed compared tokens = .ok tail := by
  induction tail generalizing compared tokens with
  | nil => exact readTail_eq_ok_nil.mpr (readTail_eq_ok_nil.mp read)
  | cons entry tail ih =>
      obtain ⟨op, operand⟩ := entry
      obtain ⟨rest, rfl, once, after⟩ := readTail_eq_ok_cons.mp read
      obtain ⟨text, others, rfl, word, later⟩ := readOperand_eq_ok.mp after
      apply readTail_eq_ok_cons.mpr
      refine ⟨_, rfl, once, readOperand_eq_ok.mpr ?_⟩
      exact ⟨text, others, rfl, ofWord_of_wider included word, ih later⟩

theorem ofTokens_of_wider {text : List Char} {tokens : List Token}
    {value : Value} (read : ofTokens declared text tokens = .ok value) :
    ofTokens wider text tokens = .ok value := by
  unfold ofTokens at read ⊢
  split at read
  · cases read
  · next first tail operands =>
      obtain ⟨word, others, rfl, readWord, later⟩ :=
        readOperand_eq_ok.mp operands
      rw [readOperand_eq_ok.mpr
        ⟨word, others, rfl, ofWord_of_wider included readWord,
          readTail_of_wider included tail later⟩]
      exact read

/-- Where more is declared, a text that can be read keeps its value. -/
theorem parse_of_wider {text : List Char} {value : Value}
    (read : parse declared text = .ok value) :
    parse wider text = .ok value := by
  unfold parse at read ⊢
  dsimp only at read ⊢
  cases tried : Literal.ofText? (Text.trim text) with
  | error fault =>
      rw [tried] at read
      cases read
  | ok found =>
      rw [tried] at read
      cases found with
      | some result => exact read
      | none =>
          dsimp only at read ⊢
          split
          · next longer =>
              rw [if_pos longer] at read
              exact ofTokens_of_wider included read
          · next single =>
              rw [if_neg single] at read
              exact ofName_of_wider included read

end Wider

/-- Two readings of one text that both succeed agree: each keeps its value where
the names of both are declared. -/
theorem parse_unique {first second : String → Bool} {text : List Char}
    {left right : Value} (readFirst : parse first text = .ok left)
    (readSecond : parse second text = .ok right) :
    left = right := by
  have wideFirst :
      parse (fun name => first name || second name) text = .ok left :=
    parse_of_wider (fun name known => by simp [known]) readFirst
  have wideSecond :
      parse (fun name => first name || second name) text = .ok right :=
    parse_of_wider (fun name known => by simp [known]) readSecond
  exact Except.ok.inj (wideFirst.symm.trans wideSecond)

/-- A literal is read as such whatever is declared. -/
theorem parse_of_parseLiteral {text : List Char} {value : Value}
    (read : parseLiteral text = .ok value) (declared : String → Bool) :
    parse declared text = .ok value := by
  unfold parseLiteral at read
  unfold parse
  dsimp only at read ⊢
  cases tried : Literal.ofText? (Text.trim text) with
  | error fault =>
      rw [tried] at read
      cases read
  | ok found =>
      rw [tried] at read
      cases found with
      | some result => exact read
      | none => cases read

end Value

namespace Command

/-! ### Two readings of a line -/

/-- Whatever is declared, a reader that succeeds gives the same answer. -/
def Determined {α : Type} (reader : Parser α) : Prop :=
  ∀ ⦃first second firstFinal secondFinal : Store⦄ ⦃left right : α⦄,
    reader first = .ok left firstFinal → reader second = .ok right secondFinal →
    left = right

namespace Determined

variable {α β : Type}

theorem returning (answer : α) : Determined (pure answer) := by
  intro first second firstFinal secondFinal left right readFirst readSecond
  cases readFirst
  cases readSecond
  rfl

theorem failing (fault : Fault) : Determined (throw fault : Parser α) := by
  intro first second firstFinal secondFinal left right readFirst
  cases readFirst

theorem sequence {first : Parser α} {next : α → Parser β} {middle : α → Prop}
    (answers : Answers first middle) (determined : Determined first)
    (determinedNext : ∀ answer, middle answer → Determined (next answer)) :
    Determined (first >>= next) := by
  intro left right leftFinal rightFinal leftAnswer rightAnswer
    readLeft readRight
  obtain ⟨answer, leftMiddle, startLeft, goesLeft⟩ := bind_eq_ok_iff.mp readLeft
  obtain ⟨other, rightMiddle, startRight, goesRight⟩ :=
    bind_eq_ok_iff.mp readRight
  cases determined startLeft startRight
  have known := (answers left).1 answer leftMiddle startLeft
  exact determinedNext answer known goesLeft goesRight

theorem readValue (fault : ValueFault → Fault) (text : List Char) :
    Determined (readValue fault text) := by
  intro first second firstFinal secondFinal left right readFirst readSecond
  unfold Command.readValue at readFirst readSecond
  split at readFirst
  · next parsedFirst =>
      cases readFirst
      split at readSecond
      · next parsedSecond =>
          cases readSecond
          exact Value.parse_unique parsedFirst parsedSecond
      · cases readSecond
  · cases readFirst

/-- Statements are determined, as they are made of values that are. -/
def logic : ReaderLogic where
  Admits _ := True
  Holds reader post := Answers reader post ∧ Determined reader
  literal _ := trivial
  returning holds := ⟨.returning holds, returning _⟩
  failing ofLine := ⟨.failing ofLine, failing _⟩
  sequence first next :=
    ⟨first.1.sequence fun answer known => (next answer known).1,
      sequence first.1 first.2 fun answer known => (next answer known).2⟩
  reading ofLine text := ⟨.readValue ofLine text, readValue _ text⟩

/-- It is enough that all answers are those of a determined reader. -/
theorem of_answers {reader other : Parser α} (determined : Determined other)
    (same : ∀ store answer final, reader store = .ok answer final →
      other store = .ok answer final) : Determined reader := by
  intro first second firstFinal secondFinal left right readFirst readSecond
  exact determined (same _ _ _ readFirst) (same _ _ _ readSecond)

theorem readAssignment (name : List Char) (value : List Token) :
    Determined (readAssignment name value) := by
  have assigned : Determined
      (Command.readValue .value (Token.join value) >>= fun result =>
        pure (Command.assign (String.ofList name) result)) :=
    sequence (.readValue (fun _ => by trivial) _) (readValue _ _) fun _ _ =>
      returning _
  apply assigned.of_answers
  intro store command final read
  rcases readAssignment_apply name value store with ⟨fault, _, refused⟩ |
    ⟨_, goes⟩
  · cases refused.symm.trans read
  · exact goes.symm.trans read

theorem readDeclaration (name : Token) (rest : List Token) :
    Determined (readDeclaration (name :: rest)) := by
  have declared : Determined
      (readInitialValue (String.ofList name.text) rest >>= fun value =>
        declareName (String.ofList name.text) >>= fun _ =>
          pure (Command.declare (String.ofList name.text) value)) := by
    obtain ⟨answers, determined⟩ :=
      logic.readInitialValue (String.ofList name.text) rest
    refine sequence answers determined fun value _ => ?_
    have once : Determined (declareName (String.ofList name.text)) := by
      intro first second firstFinal secondFinal left right _ _
      rfl
    exact sequence (.declareName _) once fun _ _ => returning _
  apply declared.of_answers
  intro store command final read
  rcases readDeclaration_apply name rest store with ⟨fault, _, refused⟩ |
    ⟨_, _, goes⟩
  · cases refused.symm.trans read
  · exact goes.symm.trans read

theorem readRange (counter start stop : List Char) (step : Option (List Char)) :
    Determined (readRange counter start stop step) := by
  have answers := answers_readCounter counter
  have determined : Determined (readCounter counter) := by
    intro first second firstFinal secondFinal left right readFirst readSecond
    rw [(answers first).1 _ _ readFirst, (answers second).1 _ _ readSecond]
  exact sequence answers determined fun word _ =>
    (logic.readBounds word start stop step).2

theorem ofText (text : List Char) : Determined (ofText text) := by
  have form := lineForm_ofText text
  generalize Command.ofText text = reader at form
  cases form with
  | refused fault ofLine => exact failing fault
  | assigning name value => exact readAssignment name value
  | declaring name rest tokens => exact readDeclaration name rest
  | counting counter start stop step => exact readRange counter start stop step
  | stating wrongCount ofLine keyword noLoop =>
      exact (logic.readStatement ofLine noLoop _).2

end Determined

end Command

/-- What a text or a line means does not depend on what is declared.  Of two
readings that both succeed, neither can be told from the other; literals need no
declaration, and what can be read at one store is read so at every store that
declares as much. -/
theorem meaning_independent_of_store (first second : Store) :
    (∀ (text : List Char) (left right : Value),
      Value.parse first.contains text = .ok left →
      Value.parse second.contains text = .ok right → left = right) ∧
    (∀ (text : List Char) (value : Value), Value.parseLiteral text = .ok value →
      Value.parse first.contains text = .ok value) ∧
    ((∀ name, first.contains name = true → second.contains name = true) →
      ∀ (text : List Char) (value : Value),
        Value.parse first.contains text = .ok value →
        Value.parse second.contains text = .ok value) ∧
    ∀ (line : Line) (left right : Command) (firstFinal secondFinal : Store),
      Command.ofLine line first = .ok left firstFinal →
      Command.ofLine line second = .ok right secondFinal → left = right := by
  refine ⟨fun _ _ _ => Value.parse_unique,
    fun _ _ read => Value.parse_of_parseLiteral read _,
    fun included _ _ => Value.parse_of_wider included, ?_⟩
  intro line left right firstFinal secondFinal readFirst readSecond
  exact Command.Determined.ofText line.text (Command.ofText_of_ofLine readFirst)
    (Command.ofText_of_ofLine readSecond)

/-- A loop that declares its counter is the same where the counter is declared
already. -/
theorem meaning_independent_of_store_counter :
    let first := Store.empty.insert "n" none
    let second := first.insert "i" none
    let color := "#ff0000".toList
    let product := "n*2".toList
    let line : Line := ⟨1, "for i 0 i+n".toList, ""⟩
    (∃ value, Value.parse first.contains color = .ok value) ∧
    (∃ value, Value.parse first.contains product = .ok value ∧
      Value.parse second.contains product = .ok value) ∧
    ∃ command firstFinal secondFinal,
      Command.ofLine line first = .ok command firstFinal ∧
      Command.ofLine line second = .ok command secondFinal := by
  intro first second color product line
  have facts : (∃ value, Value.parseLiteral color = .ok value) ∧
      (∃ value, Value.parse first.contains product = .ok value) ∧
      (answer? (Command.ofLine line first)).isSome = true ∧
      (answer? (Command.ofLine line second)).isSome = true := by
    refine ⟨⟨.literal (.color (Color.solid 255 0 0)), ?_⟩,
      ⟨.pending (.arithmetic .multiply) (.reference "n") (.literal (.int 2)),
        ?_⟩, ?_, ?_⟩ <;>
      decide +kernel
  obtain ⟨⟨red, readColor⟩, ⟨value, readProduct⟩, someFirst, someSecond⟩ :=
    facts
  have included :
      ∀ name, first.contains name = true → second.contains name = true := by
    intro name known
    rw [Store.contains_insert, known, Bool.or_true]
  obtain ⟨_, literal, wider, lines⟩ := meaning_independent_of_store first second
  refine ⟨⟨red, literal color red readColor⟩,
    ⟨value, readProduct, wider included product value readProduct⟩, ?_⟩
  obtain ⟨left, answeredFirst⟩ := Option.isSome_iff_exists.mp someFirst
  obtain ⟨right, answeredSecond⟩ := Option.isSome_iff_exists.mp someSecond
  obtain ⟨firstFinal, readFirst⟩ := answer?_eq_some_iff.mp answeredFirst
  obtain ⟨secondFinal, readSecond⟩ := answer?_eq_some_iff.mp answeredSecond
  cases lines line left right firstFinal secondFinal readFirst readSecond
  exact ⟨left, firstFinal, secondFinal, readFirst, readSecond⟩

end PenScript
