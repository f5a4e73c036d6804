import PenScript.Command.Effect
import PenScript.Command.Parser
import PenScript.Proofs.Formatting
import PenScript.Proofs.LineNumbers
import PenScript.Proofs.Positions

/-!
# Reading commands by position

Commands can be read by positions: the tokens of a line by their place, the
parameters of a keyword by their index after they have been counted, the text
after a keyword by its length in bytes, and the corners of a polygon two by two
from one row of coordinates.  Then every access can be out of range.  Here such
a reader is defined, and it is shown to do what reading and carrying out
commands do; so none of its accesses is out of range.
-/

namespace PenScript

/-- What stops a computation that goes by positions. -/
inductive Stop where
  | fault (fault : Fault)
  | outOfRange

abbrev Positional := EStateM Stop Store

/-- A command as it is read by positions: the corners of a polygon are a row of
coordinates. -/
inductive Draft where
  | command (command : Command)
  | points (coordinates : List Value)

def Command.draft : Command → Draft
  | .polygon (.path points) => .points (Pairs.flatten points)
  | command => .command command

namespace Positional

variable {α β : Type}

/-! ### Accesses -/

/-- A computation that accesses nothing by position. -/
def lift (computation : EStateM Fault Store α) : Positional α :=
  EStateM.adaptExcept .fault computation

def nth (items : List α) (index : Nat) : Positional α :=
  match items[index]? with
  | some item => pure item
  | none => throw .outOfRange

def listFrom (items : List α) (start : Nat) : Positional (List α) :=
  if start ≤ items.length then pure (items.drop start) else throw .outOfRange

def textFrom (text : List Char) (offset : Nat) : Positional (List Char) :=
  match Text.dropBytes? offset text with
  | some rest => pure rest
  | none => throw .outOfRange

/-! ### Parameters -/

def typed (parameters : List (List Char)) (expected : Kind) (index : Nat) :
    Positional Value := do
  lift (Command.readTyped expected (index + 1) (← nth parameters index))

def int (parameters : List (List Char)) (index : Nat) : Positional Value :=
  typed parameters .int index

def double (parameters : List (List Char)) (index : Nat) : Positional Value :=
  typed parameters .double index

/-- A parameter that may be left out. -/
def optional (parameters : List (List Char)) (expected : Kind) (index : Nat) :
    Positional (Option Value) := do
  if index < parameters.length
    then return some (← typed parameters expected index)
  else return none

/-- All parameters as integers. -/
def ints (parameters : List (List Char)) : Positional (List Value) :=
  (List.range parameters.length).mapM (int parameters)

/-- The color of three or four channels. -/
def colorOf : List Value → Positional ColorSource
  | [red, green, blue] => return .channels red green blue none
  | [red, green, blue, alpha] => return .channels red green blue (some alpha)
  | _ => throw .outOfRange

/-! ### Statements -/

/-- Whether a keyword takes a number of parameters.  A declaration is not
asked. -/
def accepts (keyword : Keyword) (count : Nat) : Bool :=
  keyword.arities?.all (·.contains count)

/-- The statement of a keyword whose parameters have been counted. -/
def build (misplaced : Fault) (parameters : List (List Char)) :
    Keyword → Positional Draft
  | .moveTo => do
      let x ← int parameters 0
      return .command (.moveTo x (← int parameters 1))
  | .lineTo => do
      let x ← int parameters 0
      return .command (.lineTo x (← int parameters 1))
  | .regularPolygon => do
      let sides ← int parameters 0
      let radius ← double parameters 1
      return .command
        (.polygon (.regular sides radius (← optional parameters .double 2)))
  | .square => do
      let size ← double parameters 0
      return .command
        (.polygon (.square size (← optional parameters .double 1)))
  | .quadrilateral => do
      return .points (← ints parameters)
  | .rectangle =>
      if parameters.length = 2 then do
        let width ← double parameters 0
        return .command (.polygon (.rectangle width (← double parameters 1)))
      else if parameters.length = 4 then do
        let x₁ ← int parameters 0
        let y₁ ← int parameters 1
        let x₂ ← int parameters 2
        return .command (.polygon (.corners x₁ y₁ x₂ (← int parameters 3)))
      else do
        return .points (← ints parameters)
  | .circle => do
      return .command (.circle (← double parameters 0))
  | .triangle =>
      if parameters.length = 1 then do
        return .command (.polygon (.triangle (← double parameters 0) none))
      else if parameters.length = 2 then do
        let base ← double parameters 0
        return .command
          (.polygon (.triangle base (some (← double parameters 1))))
      else do
        return .points (← ints parameters)
  | .dot => return .command .dot
  | .clear => return .command .clear
  | .resetPen => return .command .resetPen
  | .fillOn => return .command (.fill (.literal (.bool true)))
  | .fillOff => return .command (.fill (.literal (.bool false)))
  | .fill =>
      if parameters.length = 1 then do
        return .command
          (.fill (← lift (Command.readFillSetting 1 (← nth parameters 0))))
      else do
        return .command (.fillColor (← colorOf (← ints parameters)))
  | .pen =>
      if parameters.length = 1 then do
        return .command (.penColor (.single (← typed parameters .color 0)))
      else do
        return .command (.penColor (← colorOf (← ints parameters)))
  | .penWidth => do
      return .command (.penWidth (← double parameters 0))
  | .ifTrue => do
      return .command (.ifTrue (← typed parameters .bool 0))
  | .whileTrue => do
      return .command (.whileTrue (← typed parameters .bool 0))
  | .forRange => do
      let counter ← lift (Command.readCounter (← nth parameters 0))
      let start ← int parameters 1
      let stop ← int parameters 2
      return .command
        (.forRange counter start stop (← optional parameters .int 3))
  | .define => do
      let word := String.ofList (← nth parameters 0)
      lift (Command.checkName word)
      return .command (.define word)
  | .call => do
      return .command
        (.call (← lift (Command.readProcedureName (← nth parameters 0))))
  | .ret => return .command .ret
  | .endBlock => return .command .endBlock
  | .var => throw (.fault misplaced)

def statement (wrongCount : Fault) (keyword : Keyword)
    (parameters : List (List Char)) :
    Positional Draft :=
  if accepts keyword parameters.length then build wrongCount parameters keyword
  else throw (.fault wrongCount)

/-! ### Lines -/

/-- Reads `name = value` from its tokens. -/
def assignment (tokens : List Token) : Positional Draft := do
  let name ← nth tokens 0
  let word := String.ofList name.text
  if !Name.isIdentifier name.text
    then throw (.fault (.statement (.notAssignable word)))
  if !(← get).contains word then throw (.fault (.value (.undeclared word)))
  if tokens.length < 3 then throw (.fault (.statement (.missingValue word)))
  let value ← lift (Command.readValue .value (Token.join (← listFrom tokens 2)))
  return .command (.assign word value)

/-- Reads what follows the name among the tokens of a declaration. -/
def initialValue (name : String) (tokens : List Token) :
    Positional (Option Value) :=
  match tokens[1]? with
  | none => return none
  | some sign =>
      if sign = .operator (.comparison .equal) then
        if 2 < tokens.length then do
          return some (← lift
            (Command.readValue .value (Token.join (← listFrom tokens 2))))
        else throw (.fault (.statement (.missingInitialValue name)))
      else throw (.fault
        (.statement (.missingEquals name (String.ofList sign.text))))

def declaration (tokens : List Token) : Positional Draft :=
  match tokens[0]? with
  | none => throw (.fault (.statement .missingName))
  | some name => do
      let word := String.ofList name.text
      if (← get).contains word then throw (.fault (.name (.duplicate word)))
      lift (Command.checkName word)
      let value ← initialValue word tokens
      lift (Command.declareName word)
      return .command (.declare word value)

/-- Reads a line that starts with a command word. -/
def keywordLine (text : List Char) : Positional Draft :=
  let (word, rest) := Line.split text
  match Keyword.ofWord? (String.ofList word) with
  | none => throw (.fault (.statement (.unknownCommand (String.ofList word))))
  | some .var => do
      declaration
        (Token.scan (Text.trim (← textFrom text (Text.byteLength word))))
  | some keyword =>
      let parameters := Token.parameters rest
      statement (Command.wrongCount keyword word parameters) keyword parameters

/-- Whether the tokens of a line make it an assignment. -/
def isAssignment (tokens : List Token) : Positional Bool := do
  if tokens.length < 2 then return false
  if (← nth tokens 1) ≠ .operator (.comparison .equal) then return false
  return (Keyword.ofWord? (String.ofList (← nth tokens 0).text)).isNone

/-- Reads the text of a line. -/
def ofText (text : List Char) : Positional Draft := do
  let tokens := Token.scan text
  if ← isAssignment tokens then assignment tokens else keywordLine text

/-! ### Computations without accesses -/

@[simp] theorem lift_pure (answer : α) : lift (pure answer) = pure answer := rfl

@[simp] theorem lift_throw (fault : Fault) :
    lift (throw fault : EStateM Fault Store α) = throw (.fault fault) := rfl

@[simp] theorem lift_bind (first : EStateM Fault Store α)
    (next : α → EStateM Fault Store β) :
    lift (first >>= next) = lift first >>= fun answer => lift (next answer) :=
  Stateful.adaptExcept_bind Stop.fault first next

@[simp] theorem lift_get : lift (get : EStateM Fault Store Store) = get := rfl

theorem lift_mapM_some (read : α → Command.Parser β) (item : α) :
    lift ((some item).mapM read) = lift (read item) >>= fun answer =>
      pure (some answer) := by
  rw [Option.mapM_some, ← bind_pure_comp, lift_bind]
  rfl

/-- Without accesses there are none out of range. -/
theorem lift_ne_outOfRange (computation : EStateM Fault Store α)
    (store final : Store) :
    lift computation store ≠ .error .outOfRange final := by
  cases outcome : computation store with
  | ok answer middle => simp [lift, Stateful.adaptExcept_of_ok _ outcome]
  | error fault middle => simp [lift, Stateful.adaptExcept_of_error _ outcome]

/-- What a reader of commands gives, as a draft. -/
def drafted (reader : Command.Parser Command) : Positional Draft :=
  lift reader >>= fun command => pure command.draft

@[simp] theorem drafted_pure (command : Command) :
    drafted (pure command) = pure command.draft := rfl

@[simp] theorem drafted_throw (fault : Fault) :
    drafted (throw fault) = throw (.fault fault) := rfl

@[simp] theorem drafted_bind (first : Command.Parser α)
    (next : α → Command.Parser Command) :
    drafted (first >>= next) = lift first >>= fun answer =>
      drafted (next answer) := by
  simp only [drafted, lift_bind, bind_assoc]

theorem drafted_ite (condition : Prop) [Decidable condition]
    (first second : Command.Parser Command) :
    drafted (if condition then first else second) =
      if condition then drafted first else drafted second :=
  apply_ite drafted condition first second

/-! ### Accesses in range -/

@[simp] theorem nth_cons_zero (item : α) (rest : List α) :
    nth (item :: rest) 0 = pure item := rfl

@[simp] theorem nth_cons_succ (item : α) (rest : List α) (index : Nat) :
    nth (item :: rest) (index + 1) = nth rest index := by
  simp only [nth, List.getElem?_cons_succ]

theorem listFrom_of_le {items : List α} {start : Nat}
    (inside : start ≤ items.length) :
    listFrom items start = pure (items.drop start) :=
  if_pos inside

/-- The text after the first word of a line can be found by the length of that
word in bytes. -/
theorem textFrom_word (text : List Char) :
    textFrom text (Text.byteLength (Line.split text).1) =
      pure (text.dropWhile fun c => !Text.isBlank c) := by
  have word :
      (Line.split text).1 = text.takeWhile fun c => !Text.isBlank c := by
    simp only [Line.split, Text.cut]
    split <;> simp_all
  have cut :=
    Text.dropBytes?_byteLength_append (text.takeWhile fun c => !Text.isBlank c)
    (text.dropWhile fun c => !Text.isBlank c)
  rw [List.takeWhile_append_dropWhile] at cut
  rw [textFrom, word, cut]

open Command (readTyped readInt readPoints readPath readChannels readStatement
  readAssignment readInitialValue readDeclaration readKeyword)

/-! ### Parameters in range -/

theorem typed_of_getElem? {parameters : List (List Char)} {index : Nat}
    {text : List Char} (found : parameters[index]? = some text)
    (expected : Kind) :
    typed parameters expected index =
      lift (readTyped expected (index + 1) text) := by
  simp only [typed, nth, found, pure_bind]

theorem optional_eq (parameters : List (List Char)) (expected : Kind)
    (index : Nat) :
    optional parameters expected index =
      lift (parameters[index]?.mapM (readTyped expected (index + 1))) := by
  unfold optional
  split
  · next inside =>
      rw [List.getElem?_eq_getElem inside, lift_mapM_some,
        typed_of_getElem? (List.getElem?_eq_getElem inside)]
  · next outside =>
      rw [List.getElem?_eq_none (Nat.le_of_not_lt outside)]
      rfl

/-- Reads integers one after the other; the first one is at `position`. -/
def readInts (position : Nat) : List (List Char) → Command.Parser (List Value)
  | [] => return []
  | text :: rest => do
      let value ← readInt position text
      return value :: (← readInts (position + 1) rest)

/-- The integers from an index on are read by their indices as they are read in
a row. -/
theorem mapM_int_range' (before rest : List (List Char)) :
    (List.range' before.length rest.length).mapM (int (before ++ rest)) =
      lift (readInts (before.length + 1) rest) := by
  induction rest generalizing before with
  | nil => rfl
  | cons text rest ih =>
      have found : (before ++ text :: rest)[before.length]? = some text := by
        simp
      have here : int (before ++ text :: rest) before.length =
          lift (readInt (before.length + 1) text) :=
            typed_of_getElem? found .int
      have later := ih (before ++ [text])
      rw [List.append_assoc, List.singleton_append, List.length_append,
        List.length_singleton] at later
      simp only [List.length_cons, List.range'_succ, List.mapM_cons, here,
        later, readInts, lift_bind, lift_pure]

theorem ints_eq (parameters : List (List Char)) :
    ints parameters = lift (readInts 1 parameters) := by
  rw [ints, List.range_eq_range']
  exact mapM_int_range' [] parameters

theorem readInts_flatten (position : Nat)
    (points : List (List Char × List Char)) :
    readInts position (Pairs.flatten points) =
      readPoints position points >>= fun read => pure (Pairs.flatten read) := by
  induction points generalizing position with
  | nil => rfl
  | cons point rest ih =>
      simp only [Pairs.flatten_cons, readInts, readPoints, ih, bind_assoc,
        pure_bind]

theorem drafted_readPath (points : List (List Char × List Char)) :
    drafted (readPath points) =
      ints (Pairs.flatten points) >>= fun coordinates =>
        pure (.points coordinates) := by
  rw [readPath, drafted_bind, ints_eq, readInts_flatten, lift_bind, bind_assoc]
  rfl

theorem colorOf_three (red green blue : List Char) :
    ints [red, green, blue] >>= colorOf =
      lift (readChannels red green blue none) := by
  simp only [ints_eq, readInts, readChannels, lift_bind, lift_pure, bind_assoc,
    pure_bind]
  rfl

theorem colorOf_four (red green blue alpha : List Char) :
    ints [red, green, blue, alpha] >>= colorOf =
      lift (readChannels red green blue (some alpha)) := by
  simp only [ints_eq, readInts, readChannels, lift_bind, lift_pure, bind_assoc,
    pure_bind, lift_mapM_some]
  rfl

/-! ### Statements in range -/

theorem accepts_iff {keyword : Keyword} {accepted : List Nat}
    (known : keyword.arities? = some accepted) {count : Nat} :
    accepts keyword count = true ↔ count ∈ accepted := by
  simp [accepts, known]

/-- A keyword that takes a number of parameters finds all of them.  The table of
counts and the accesses of `build` are independent of each other: for each
keyword and each count in the table, the accesses are evaluated on a list of
that length. -/
theorem build_eq (wrongCount : Fault) {keyword : Keyword}
    {parameters : List (List Char)}
    (accepted : accepts keyword parameters.length = true) :
    build wrongCount parameters keyword =
      drafted (readStatement wrongCount keyword parameters) := by
  cases keyword with
  | moveTo | lineTo =>
      have two := List.mem_singleton.mp ((accepts_iff rfl).mp accepted)
      obtain ⟨x, y, rfl⟩ := List.length_eq_two.mp two
      simp only [build, readStatement, drafted_bind, drafted_pure]
      rfl
  | regularPolygon =>
      rcases List.mem_pair.mp ((accepts_iff rfl).mp accepted) with two | three
      · obtain ⟨sides, radius, rfl⟩ := List.length_eq_two.mp two
        simp only [build, readStatement, drafted_bind, drafted_pure]
        rfl
      · obtain ⟨sides, radius, rotation, rfl⟩ := List.length_eq_three.mp three
        simp only [build, readStatement, drafted_bind, drafted_pure,
          optional_eq, List.getElem?_cons_succ, List.getElem?_cons_zero,
          lift_mapM_some, bind_assoc, pure_bind]
        rfl
  | square =>
      rcases List.mem_pair.mp ((accepts_iff rfl).mp accepted) with one | two
      · obtain ⟨size, rfl⟩ := List.length_eq_one_iff.mp one
        simp only [build, readStatement, drafted_bind, drafted_pure]
        rfl
      · obtain ⟨size, rotation, rfl⟩ := List.length_eq_two.mp two
        simp only [build, readStatement, drafted_bind, drafted_pure,
          optional_eq, List.getElem?_cons_succ, List.getElem?_cons_zero,
          lift_mapM_some, bind_assoc, pure_bind]
        rfl
  | quadrilateral =>
      have eight : parameters.length = 2 * 4 :=
        List.mem_singleton.mp ((accepts_iff rfl).mp accepted)
      obtain ⟨points, four, rfl⟩ := Pairs.exists_flatten_of_length_eq eight
      obtain ⟨_, _, _, _, rfl⟩ := List.length_eq_four.mp four
      exact (drafted_readPath _).symm
  | rectangle =>
      have counts := (accepts_iff rfl).mp accepted
      simp only [List.mem_cons, List.not_mem_nil, or_false] at counts
      rcases counts with two | four | (eight : parameters.length = 2 * 4)
      · obtain ⟨width, height, rfl⟩ := List.length_eq_two.mp two
        simp only [build, readStatement, drafted_bind, drafted_pure]
        rfl
      · obtain ⟨x₁, y₁, x₂, y₂, rfl⟩ := List.length_eq_four.mp four
        simp only [build, readStatement, drafted_bind, drafted_pure]
        rfl
      · obtain ⟨points, four, rfl⟩ := Pairs.exists_flatten_of_length_eq eight
        obtain ⟨_, _, _, _, rfl⟩ := List.length_eq_four.mp four
        exact (drafted_readPath _).symm
  | triangle =>
      have counts := (accepts_iff rfl).mp accepted
      simp only [List.mem_cons, List.not_mem_nil, or_false] at counts
      rcases counts with one | two | (six : parameters.length = 2 * 3)
      · obtain ⟨base, rfl⟩ := List.length_eq_one_iff.mp one
        simp only [build, readStatement, drafted_bind, drafted_pure]
        rfl
      · obtain ⟨base, height, rfl⟩ := List.length_eq_two.mp two
        simp only [build, readStatement, drafted_bind, drafted_pure]
        rfl
      · obtain ⟨points, three, rfl⟩ := Pairs.exists_flatten_of_length_eq six
        obtain ⟨_, _, _, rfl⟩ := List.length_eq_three.mp three
        exact (drafted_readPath _).symm
  | dot | clear | resetPen | fillOn | fillOff | ret | endBlock =>
      rw [List.length_eq_zero_iff.mp
        (List.mem_singleton.mp ((accepts_iff rfl).mp accepted))]
      rfl
  | fill | pen =>
      have counts := (accepts_iff rfl).mp accepted
      simp only [List.mem_cons, List.not_mem_nil, or_false] at counts
      rcases counts with one | three | four
      · obtain ⟨setting, rfl⟩ := List.length_eq_one_iff.mp one
        simp only [build, readStatement, drafted_bind, drafted_pure]
        rfl
      · obtain ⟨red, green, blue, rfl⟩ := List.length_eq_three.mp three
        simp only [build, readStatement, drafted_bind, drafted_pure,
          ← colorOf_three, bind_assoc]
        rfl
      · obtain ⟨red, green, blue, alpha, rfl⟩ := List.length_eq_four.mp four
        simp only [build, readStatement, drafted_bind, drafted_pure,
          ← colorOf_four, bind_assoc]
        rfl
  | circle | penWidth | ifTrue | whileTrue | define | call =>
      have one := List.mem_singleton.mp ((accepts_iff rfl).mp accepted)
      obtain ⟨parameter, rfl⟩ := List.length_eq_one_iff.mp one
      simp only [build, readStatement, drafted_bind, drafted_pure]
      rfl
  | forRange =>
      rcases List.mem_pair.mp ((accepts_iff rfl).mp accepted) with three | four
      · obtain ⟨counter, start, stop, rfl⟩ := List.length_eq_three.mp three
        simp only [build, readStatement, Command.readRange, drafted_bind,
          drafted_pure, optional_eq]
        rfl
      · obtain ⟨counter, start, stop, step, rfl⟩ := List.length_eq_four.mp four
        simp only [build, readStatement, Command.readRange, drafted_bind,
          drafted_pure, optional_eq]
        rfl
  | var => rfl

/-- The patterns of statements are those that the table of counts allows. -/
theorem readStatement_of_not_accepted (wrongCount : Fault) {keyword : Keyword}
    {parameters : List (List Char)}
    (refused : ¬accepts keyword parameters.length = true) :
    readStatement wrongCount keyword parameters = throw wrongCount := by
  unfold readStatement
  split
  all_goals first | exact absurd rfl refused | rfl

theorem statement_eq (wrongCount : Fault) (keyword : Keyword)
    (parameters : List (List Char)) :
    statement wrongCount keyword parameters =
      drafted (readStatement wrongCount keyword parameters) := by
  unfold statement
  split
  · next accepted => exact build_eq wrongCount accepted
  · next refused =>
      rw [readStatement_of_not_accepted wrongCount refused, drafted_throw]

/-! ### Lines in range -/

theorem assignment_eq (name sign : Token) (value : List Token) :
    assignment (name :: sign :: value) =
      drafted (readAssignment name.text value) := by
  have rest : listFrom (name :: sign :: value) 2 = pure value :=
    listFrom_of_le (by simp)
  have count : (name :: sign :: value).length < 3 ↔ value.isEmpty := by
    cases value <;> simp
  unfold assignment readAssignment
  simp only [nth_cons_zero, pure_bind, rest, count, drafted_ite, drafted_bind,
    lift_throw, lift_get, drafted_pure]
  rfl

theorem initialValue_eq (word : String) (name : Token) (rest : List Token) :
    initialValue word (name :: rest) = lift (readInitialValue word rest) := by
  unfold readInitialValue
  split
  · rfl
  · rfl
  · next value more =>
      have long :
          2 < (name :: Token.operator (.comparison .equal) :: value).length := by
        cases value with
        | nil => exact absurd rfl more
        | cons => simp
      have found := listFrom_of_le (Nat.le_of_lt long)
      simp only [initialValue, List.getElem?_cons_succ, List.getElem?_cons_zero,
        if_pos long, found, pure_bind, lift_bind]
      rfl
  · next other _ _ sign =>
      simp only [initialValue, List.getElem?_cons_succ, List.getElem?_cons_zero,
        if_neg sign, lift_throw]

theorem declaration_eq (tokens : List Token) :
    declaration tokens = drafted (readDeclaration tokens) := by
  cases tokens with
  | nil => rfl
  | cons name rest =>
      unfold declaration readDeclaration
      simp only [List.getElem?_cons_zero, drafted_ite, drafted_bind, lift_throw,
        lift_get, drafted_pure, initialValue_eq]
      rfl

/-- The blank after the first word is trimmed with the others. -/
theorem trim_dropWhile (text : List Char) :
    Text.trim (text.dropWhile fun c => !Text.isBlank c) =
      (Line.split text).2 := by
  unfold Line.split Text.cut
  cases found : text.dropWhile fun c => !Text.isBlank c with
  | nil => rfl
  | cons c rest =>
      have blank : Text.Blank [c] := by
        intro other member
        rw [List.mem_singleton.mp member]
        have first := List.head?_dropWhile_not (fun c => !Text.isBlank c) text
        rw [found] at first
        simpa using first
      exact Text.trim_blank_append blank rest

theorem keywordLine_eq (text : List Char) :
    keywordLine text = drafted (readKeyword text) := by
  unfold keywordLine readKeyword
  dsimp only
  cases found : Keyword.ofWord? (String.ofList (Line.split text).1) with
  | none => rfl
  | some keyword =>
      cases keyword with
      | var =>
          dsimp only
          rw [textFrom_word, pure_bind, trim_dropWhile]
          exact declaration_eq _
      | _ => exact statement_eq _ _ _

theorem isAssignment_of_equals (name : Token) (value : List Token) :
    isAssignment (name :: .operator (.comparison .equal) :: value) =
      pure (Keyword.ofWord? (String.ofList name.text)).isNone := by
  have long :
      ¬(name :: Token.operator (.comparison .equal) :: value).length < 2 := by
    simp
  simp only [isAssignment, if_neg long, nth_cons_succ, nth_cons_zero, pure_bind]
  rfl

theorem isAssignment_of_other {tokens : List Token}
    (other : ∀ name value,
      tokens ≠ name :: .operator (.comparison .equal) :: value) :
    isAssignment tokens = pure false := by
  rcases tokens with _ | ⟨name, _ | ⟨sign, value⟩⟩
  · rfl
  · rfl
  · have long : ¬(name :: sign :: value).length < 2 := by simp
    have different : sign ≠ .operator (.comparison .equal) := by
      intro same
      exact other name value (by rw [same])
    simp only [isAssignment, if_neg long, nth_cons_succ, nth_cons_zero,
      pure_bind, if_pos different]

/-- Reading by positions is reading. -/
theorem ofText_eq (text : List Char) :
    ofText text = drafted (Command.ofText text) := by
  unfold ofText Command.ofText
  dsimp only
  split
  · next name value found =>
      rw [found, isAssignment_of_equals, pure_bind, drafted_ite, assignment_eq,
        keywordLine_eq]
  · next other =>
      rw [isAssignment_of_other other, pure_bind, keywordLine_eq]
      rfl

end Positional

/-! ### Effects -/

namespace Draft

/-- The members of a list two by two; the last one may be alone. -/
def twoByTwo {α : Type} : List α → List (List α)
  | [] => []
  | [last] => [[last]]
  | first :: second :: rest => [first, second] :: twoByTwo rest

/-- The point that two coordinates stand for. -/
def corner (coordinates : List Value) : Positional Point := do
  let x ← Positional.lift
    (EStateM.adaptExcept .value (← Positional.nth coordinates 0).readInt)
  let y ← Positional.lift
    (EStateM.adaptExcept .value (← Positional.nth coordinates 1).readInt)
  return ⟨x, y⟩

/-- What a command does by itself. -/
def effect : Draft → Positional Effect
  | .command given => Positional.lift given.effect
  | .points coordinates => do
      return .draw (.polygon (← (twoByTwo coordinates).mapM corner))

theorem twoByTwo_flatten {α : Type} (pairs : List (α × α)) :
    twoByTwo (Pairs.flatten pairs) = pairs.map fun pair =>
      [pair.1, pair.2] := by
  induction pairs with
  | nil => rfl
  | cons pair rest ih => rw [Pairs.flatten_cons, twoByTwo, ih, List.map_cons]

theorem corner_pair (x y : Value) :
    corner [x, y] =
      Positional.lift (EStateM.adaptExcept .value (Value.readPoint x y)) := by
  rw [Value.readPoint, Stateful.adaptExcept_bind, Positional.lift_bind]
  simp only [Stateful.adaptExcept_bind, Positional.lift_bind]
  rfl

theorem mapM_corner (points : List (Value × Value)) :
    (twoByTwo (Pairs.flatten points)).mapM corner =
      Positional.lift
        (EStateM.adaptExcept .value (Shape.path points).points) := by
  rw [twoByTwo_flatten]
  unfold Shape.points
  induction points with
  | nil => rfl
  | cons point rest ih =>
      simp only [List.map_cons, List.mapM_cons, ih, corner_pair,
        Stateful.adaptExcept_bind, Positional.lift_bind]
      rfl

/-- Carrying out a command by positions is carrying it out. -/
theorem effect_draft (command : Command) :
    command.draft.effect = Positional.lift command.effect := by
  cases command with
  | polygon shape =>
      cases shape with
      | path points =>
          simp only [Command.draft, effect, mapM_corner, Command.effect,
            Command.drawing, Stateful.adaptExcept_bind, Positional.lift_bind,
            bind_assoc]
          rfl
      | _ => rfl
  | _ => rfl

end Draft

/-! ### Programs -/

/-- Every command of a program has been read from a line of the script. -/
theorem Program.read_of_mem_parse {source : String} {store : Store}
    {entry : Command × Nat}
    (member : entry ∈ (parse source store).program.commands) :
    ∃ line ∈ Line.ofSource source, line.number = entry.2 ∧
      ∃ before after, Command.ofText line.text before = .ok entry.1 after := by
  obtain ⟨lines, rest, word, _, assembly, split, reads, added, program, _⟩ :=
    parseLines_reads .empty store (Line.ofSource source)
  have completed : entry ∈ assembly.completed.commands := program ▸ member
  obtain ⟨line, listed, number, before, after, read⟩ :=
    reads.of_mem_commands added
      (Assembly.mem_commands_of_mem_completed completed)
  exact ⟨line, split ▸ List.mem_append_left _ listed, number, before, after,
    Command.ofText_of_ofLine read⟩

namespace Positional

theorem drafted_of_ok {reader : Command.Parser Command} {store final : Store}
    {command : Command} (read : reader store = .ok command final) :
    drafted reader store = .ok command.draft final :=
  Stateful.bind_of_ok (Stateful.adaptExcept_of_ok Stop.fault read)

theorem drafted_of_error {reader : Command.Parser Command} {store final : Store}
    {fault : Fault} (failed : reader store = .error fault final) :
    drafted reader store = .error (.fault fault) final :=
  Stateful.bind_of_error (Stateful.adaptExcept_of_error Stop.fault failed)

/-- A row of coordinates that has been read consists of pairs. -/
theorem even_of_drafted {reader : Command.Parser Command} {store final : Store}
    {coordinates : List Value}
    (read : drafted reader store = .ok (.points coordinates) final) :
    2 ∣ coordinates.length := by
  cases outcome : reader store with
  | error fault middle => cases read.symm.trans (drafted_of_error outcome)
  | ok command middle =>
      have same := read.symm.trans (drafted_of_ok outcome)
      unfold Command.draft at same
      split at same
      · next points =>
          cases same
          exact ⟨points.length, Pairs.length_flatten points⟩
      · cases same

theorem drafted_ne_outOfRange (reader : Command.Parser Command)
    (store final : Store) :
    drafted reader store ≠ .error .outOfRange final := by
  intro stopped
  cases outcome : reader store with
  | ok command middle => cases stopped.symm.trans (drafted_of_ok outcome)
  | error fault middle => cases stopped.symm.trans (drafted_of_error outcome)

/-- Whatever text a line has, reading it by positions is reading it, and no
position is out of range.  A row of coordinates that has been read is of even
length.  All commands of a program have been read in this way.  Carrying out a
command by positions is carrying it out, and no position is out of range then.
Nor is it when the channels of a color are read by byte offsets, whatever the
text. -/
theorem positions_in_range :
    (∀ text, ofText text = drafted (Command.ofText text)) ∧
    (∀ text store final, ofText text store ≠ .error .outOfRange final) ∧
    (∀ text store coordinates final,
      ofText text store = .ok (.points coordinates) final →
      2 ∣ coordinates.length) ∧
    (∀ source store, ∀ entry ∈ (Program.parse source store).program.commands,
      ∃ line ∈ Line.ofSource source, line.number = entry.2 ∧
        ∃ before after, ofText line.text before = .ok entry.1.draft after) ∧
    (∀ command : Command, command.draft.effect = lift command.effect) ∧
    (∀ (command : Command) store final,
      command.draft.effect store ≠ .error .outOfRange final) ∧
    ∀ text, (Color.ofHexBytes text).run = some (Color.ofHex? text) := by
  refine ⟨ofText_eq, ?_, ?_, ?_, Draft.effect_draft, ?_, Color.run_ofHexBytes⟩
  · intro text store final
    rw [ofText_eq]
    exact drafted_ne_outOfRange _ store final
  · intro text store coordinates final read
    rw [ofText_eq] at read
    exact even_of_drafted read
  · intro source store entry member
    obtain ⟨line, listed, number, before, after, read⟩ :=
      Program.read_of_mem_parse member
    refine ⟨line, listed, number, before, after, ?_⟩
    rw [ofText_eq]
    exact drafted_of_ok read
  · intro command store final
    rw [Draft.effect_draft]
    exact lift_ne_outOfRange _ store final

/-- The corners of a rectangle are read as a row of eight coordinates, and drawn
from it.  A single coordinate would be out of range. -/
theorem positions_in_range_rectangle :
    let zero : Value := .literal (.int 0)
    let four : Value := .literal (.int 4)
    let coordinates := [zero, zero, four, zero, four, four, zero, four]
    (∃ final, ofText "rectangle 0 0 4 0 4 4 0 4".toList .empty =
      .ok (.points coordinates) final) ∧
    2 ∣ coordinates.length ∧
    Stateful.answer? ((Draft.points coordinates).effect .empty) =
      some (.draw (.polygon [⟨0, 0⟩, ⟨4, 0⟩, ⟨4, 4⟩, ⟨0, 4⟩])) ∧
    (Draft.points [zero]).effect .empty = .error .outOfRange .empty := by
  intro zero four coordinates
  obtain ⟨same, _, even, _⟩ := positions_in_range
  have answered : Stateful.answer?
      (Command.ofText "rectangle 0 0 4 0 4 4 0 4".toList .empty) =
        some
          (.polygon
            (.path [(zero, zero), (four, zero), (four, four),
              (zero, four)])) := by
    decide +kernel
  obtain ⟨final, command⟩ := Stateful.answer?_eq_some_iff.mp answered
  have read : ofText "rectangle 0 0 4 0 4 4 0 4".toList .empty =
      .ok (.points coordinates) final := by
    rw [same]
    exact drafted_of_ok command
  exact ⟨⟨final, read⟩, even _ _ _ _ read, by decide +kernel, rfl⟩

end Positional

end PenScript
