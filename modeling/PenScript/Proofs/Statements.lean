import PenScript.Command.Parser
import PenScript.Proofs.Effect

/-!
# Reading statements

Reading a line is put together from readers of parameters, each of which reads
one value and looks at its kind.  `ReaderLogic` carries a property from the
reading of values to whole statements, along with what is known of the command:
its parameters meet what it asks of them.
-/

namespace PenScript

open Stateful

/-- A fault that a line can have by itself. -/
def Fault.OfLine : Fault → Prop
  | .value _ | .name _ | .statement _ => True
  | .block _ | .run _ => False

/-- As far as its kind is known beforehand, the value meets the demand. -/
def Demand.Fits (demand : Demand) (value : Value) : Prop :=
  ∀ kind, value.kind? = some kind → demand.accepts kind = true

namespace Demand

theorem fits_of_unknown {value : Value} (unknown : value.kind? = none)
    (demand : Demand) :
    demand.Fits value := by
  intro kind known
  rw [unknown] at known
  cases known

theorem fits_of_known {value : Value} {found : Kind}
    (known : value.kind? = some found) {demand : Demand}
    (accepted : demand.accepts found = true) : demand.Fits value := by
  intro kind same
  cases known.symm.trans same
  exact accepted

end Demand

namespace Command

/-- A property of readers together with what holds of their answers.  Values
that are read are admitted, and the property is kept when readers are put
together. -/
structure ReaderLogic where
  Admits : Value → Prop
  Holds : {α : Type} → Parser α → (α → Prop) → Prop
  literal : ∀ result, Admits (.literal result)
  returning : ∀ {α : Type} {answer : α} {post : α → Prop}, post answer →
    Holds (pure answer) post
  failing : ∀ {α : Type} {fault : Fault} {post : α → Prop}, fault.OfLine →
    Holds (throw fault) post
  sequence : ∀ {α β : Type} {first : Parser α} {next : α → Parser β}
    {middle : α → Prop} {post : β → Prop}, Holds first middle →
    (∀ answer, middle answer → Holds (next answer) post) →
      Holds (first >>= next) post
  reading : ∀ {fault : ValueFault → Fault}, (∀ cause, (fault cause).OfLine) →
    ∀ text : List Char,
    Holds (readValue fault text) Admits

namespace ReaderLogic

variable (logic : ReaderLogic)

/-- What is known of a parameter that was read for a demand. -/
def Meets (demand : Demand) (value : Value) : Prop :=
  logic.Admits value ∧ demand.Fits value

/-- What is known of a statement that was read, unless it counts with a
variable. -/
structure Stated (parameters : List (List Char)) (command : Command) :
    Prop where
  demands : ∀ entry ∈ command.demands, logic.Meets entry.1 entry.2
  target : command.target? = none
  defines : ∀ name, command.procedureName? = some name →
    Name.check name = .ok () ∧ name.toList ∈ parameters

variable {logic}

theorem Stated.of_demands {parameters : List (List Char)} {command : Command}
    (demands : ∀ entry ∈ command.demands, logic.Meets entry.1 entry.2)
    (target : command.target? = none) (plain : command.procedureName? = none) :
    logic.Stated parameters command where
  demands := demands
  target := target
  defines name found := by
    rw [plain] at found
    cases found

variable (logic)

/-! ### Parameters -/

theorem checkName (word : String) :
    logic.Holds (checkName word) fun _ => Name.check word = .ok () := by
  cases checked : Name.check word with
  | ok _ =>
      have passes : Command.checkName word = pure () := by
        funext store
        rw [Command.checkName, checked]
        rfl
      rw [passes]
      exact logic.returning rfl
  | error fault =>
      have fails : Command.checkName word = throw (.name fault) := by
        funext store
        rw [Command.checkName, checked]
        rfl
      rw [fails]
      exact logic.failing trivial

theorem readProcedureName (text : List Char) :
    logic.Holds (readProcedureName text) fun word =>
      Name.isReserved word = false := by
  unfold Command.readProcedureName
  dsimp only
  split
  · next valid =>
      simp only [Bool.and_eq_true, Bool.not_eq_eq_eq_not, Bool.not_true]
          at valid
      exact logic.returning valid.2
  · exact logic.failing trivial

theorem readParameter (position : Nat) (text : List Char) :
    logic.Holds (readParameter position text) logic.Admits :=
  logic.reading (fun _ => by trivial) text

theorem readTyped (expected : Kind) (position : Nat) (text : List Char) :
    logic.Holds (readTyped expected position text)
      (logic.Meets (.kind expected)) := by
  refine logic.sequence (logic.readParameter position text) fun value
    admitted => ?_
  split
  · next unknown =>
      exact logic.returning ⟨admitted, Demand.fits_of_unknown unknown _⟩
  · next found known =>
      split
      · next coerces =>
          exact logic.returning ⟨admitted, Demand.fits_of_known known coerces⟩
      · exact logic.failing trivial

theorem readFillSetting (position : Nat) (text : List Char) :
    logic.Holds (readFillSetting position text) (logic.Meets .setting) := by
  refine logic.sequence (logic.readParameter position text) fun value
    admitted => ?_
  split
  · next unknown =>
      exact logic.returning ⟨admitted, Demand.fits_of_unknown unknown _⟩
  · next truth =>
      exact logic.returning ⟨admitted, Demand.fits_of_known truth rfl⟩
  · next color =>
      exact logic.returning ⟨admitted, Demand.fits_of_known color rfl⟩
  · exact logic.failing trivial

theorem optional (expected : Kind) (position : Nat)
    (text : Option (List Char)) :
    logic.Holds (text.mapM (Command.readTyped expected position)) fun value =>
      ∀ given ∈ value.toList, logic.Meets (.kind expected) given := by
  cases text with
  | none => exact logic.returning (by simp)
  | some text =>
      refine logic.sequence (logic.readTyped expected position text)
        fun value meets => ?_
      exact logic.returning (by simpa using meets)

theorem readPoints (position : Nat) (texts : List (List Char × List Char)) :
    logic.Holds (readPoints position texts) fun points =>
      ∀ value ∈ points.flatMap (fun (x, y) => [x, y]),
        logic.Meets (.kind .int) value := by
  induction texts generalizing position with
  | nil => exact logic.returning (by simp)
  | cons text rest ih =>
      refine logic.sequence (logic.readTyped _ _ _) fun x meetsX => ?_
      refine logic.sequence (logic.readTyped _ _ _) fun y meetsY => ?_
      refine logic.sequence (ih (position + 2)) fun points meets =>
        logic.returning ?_
      rw [List.flatMap_cons]
      exact List.forall_mem_append.mpr ⟨by simp [meetsX, meetsY], meets⟩

theorem readPath (texts : List (List Char × List Char))
    (parameters : List (List Char)) :
    logic.Holds (readPath texts) (logic.Stated parameters) := by
  refine logic.sequence (logic.readPoints 1 texts) fun points meets =>
    logic.returning ?_
  exact .of_demands (List.forall_mem_map.mpr meets) rfl rfl

theorem readChannels (red green blue : List Char) (alpha : Option (List Char)) :
    logic.Holds (readChannels red green blue alpha) fun source =>
      ∀ entry ∈ source.demands, logic.Meets entry.1 entry.2 := by
  refine logic.sequence (logic.readTyped _ _ _) fun red meetsRed => ?_
  refine logic.sequence (logic.readTyped _ _ _) fun green meetsGreen => ?_
  refine logic.sequence (logic.readTyped _ _ _) fun blue meetsBlue => ?_
  refine logic.sequence (logic.optional _ _ alpha) fun alpha meetsAlpha =>
    logic.returning ?_
  simpa [ColorSource.demands, meetsRed, meetsGreen, meetsBlue] using meetsAlpha

/-! ### Statements -/

section Building

variable {logic}

/-- A command with one value that is read. -/
theorem one {demand : Demand} {reader : Parser Value}
    (reads : logic.Holds reader (logic.Meets demand)) {build : Value → Command}
    {parameters : List (List Char)}
    (built : ∀ x, logic.Meets demand x → logic.Stated parameters (build x)) :
    logic.Holds (do return build (← reader)) (logic.Stated parameters) :=
  logic.sequence reads fun x meets => logic.returning (built x meets)

/-- A command with two values that are read one after the other. -/
theorem two {demandFirst demandSecond : Demand} {first second : Parser Value}
    (readsFirst : logic.Holds first (logic.Meets demandFirst))
    (readsSecond : logic.Holds second (logic.Meets demandSecond))
    {build : Value → Value → Command} {parameters : List (List Char)}
    (built : ∀ x y, logic.Meets demandFirst x → logic.Meets demandSecond y →
      logic.Stated parameters (build x y)) :
    logic.Holds (do let x ← first; return build x (← second))
      (logic.Stated parameters) :=
  logic.sequence readsFirst fun x meetsX =>
    logic.sequence readsSecond fun y meetsY =>
    logic.returning (built x y meetsX meetsY)

end Building

theorem readStatement {wrongCount : Fault} (ofLine : wrongCount.OfLine)
    {keyword : Keyword} (noLoop : keyword ≠ .forRange)
    (parameters : List (List Char)) :
    logic.Holds (readStatement wrongCount keyword parameters)
      (logic.Stated parameters) := by
  have typed := logic.readTyped
  have truth (b : Bool) : logic.Meets .setting (.literal (.bool b)) :=
    ⟨logic.literal _, Demand.fits_of_known rfl rfl⟩
  unfold Command.readStatement
  split
  · exact two (typed _ _ _) (typed _ _ _) fun x y meetsX meetsY =>
      .of_demands (by simp [demands, meetsX, meetsY]) rfl rfl
  · exact two (typed _ _ _) (typed _ _ _) fun x y meetsX meetsY =>
      .of_demands (by simp [demands, meetsX, meetsY]) rfl rfl
  · exact two (typed _ _ _) (typed _ _ _) fun x y meetsX meetsY =>
      .of_demands (by simp [demands, Shape.demands, meetsX, meetsY]) rfl rfl
  · refine logic.sequence (typed _ _ _) fun sides meetsSides => ?_
    exact two (typed _ _ _) (typed _ _ _) fun radius rotation meetsR meetsT =>
      .of_demands (by simp [demands, Shape.demands, meetsSides, meetsR, meetsT])
        rfl rfl
  · exact one (typed _ _ _) fun x meets =>
      .of_demands (by simp [demands, Shape.demands, Shape.values, meets]) rfl
        rfl
  · exact two (typed _ _ _) (typed _ _ _) fun x y meetsX meetsY =>
      .of_demands
        (by simp [demands, Shape.demands, Shape.values, meetsX, meetsY]) rfl rfl
  · exact logic.readPath _ _
  · exact two (typed _ _ _) (typed _ _ _) fun x y meetsX meetsY =>
      .of_demands
        (by simp [demands, Shape.demands, Shape.values, meetsX, meetsY]) rfl rfl
  · refine logic.sequence (typed _ _ _) fun x₁ meetsX₁ => ?_
    refine logic.sequence (typed _ _ _) fun y₁ meetsY₁ => ?_
    exact two (typed _ _ _) (typed _ _ _) fun x₂ y₂ meetsX₂ meetsY₂ =>
      .of_demands
        (by simp [demands, Shape.demands, meetsX₁, meetsY₁, meetsX₂, meetsY₂])
          rfl rfl
  · exact logic.readPath _ _
  · exact one (typed _ _ _) fun x meets =>
      .of_demands (by simp [demands, meets]) rfl rfl
  · exact one (typed _ _ _) fun x meets =>
      .of_demands (by simp [demands, Shape.demands, Shape.values, meets]) rfl
        rfl
  · exact two (typed _ _ _) (typed _ _ _) fun x y meetsX meetsY =>
      .of_demands
        (by simp [demands, Shape.demands, Shape.values, meetsX, meetsY]) rfl rfl
  · exact logic.readPath _ _
  · exact logic.returning (.of_demands (by simp [demands]) rfl rfl)
  · exact logic.returning (.of_demands (by simp [demands]) rfl rfl)
  · exact logic.returning (.of_demands (by simp [demands]) rfl rfl)
  · exact logic.returning (.of_demands (by simp [demands, truth]) rfl rfl)
  · exact logic.returning (.of_demands (by simp [demands, truth]) rfl rfl)
  · exact one (logic.readFillSetting _ _) fun x meets =>
      .of_demands (by simp [demands, meets]) rfl rfl
  · exact logic.sequence (logic.readChannels _ _ _ _) fun source meets =>
      logic.returning (.of_demands meets rfl rfl)
  · exact logic.sequence (logic.readChannels _ _ _ _) fun source meets =>
      logic.returning (.of_demands meets rfl rfl)
  · exact one (typed _ _ _) fun x meets =>
      .of_demands (by simp [demands, ColorSource.demands, meets]) rfl rfl
  · exact logic.sequence (logic.readChannels _ _ _ _) fun source meets =>
      logic.returning (.of_demands meets rfl rfl)
  · exact logic.sequence (logic.readChannels _ _ _ _) fun source meets =>
      logic.returning (.of_demands meets rfl rfl)
  · exact one (typed _ _ _) fun x meets =>
      .of_demands (by simp [demands, meets]) rfl rfl
  · exact one (typed _ _ _) fun x meets =>
      .of_demands (by simp [demands, meets]) rfl rfl
  · exact one (typed _ _ _) fun x meets =>
      .of_demands (by simp [demands, meets]) rfl rfl
  · exact absurd rfl noLoop
  · exact absurd rfl noLoop
  · next name =>
      refine logic.sequence (logic.checkName (String.ofList name)) fun _
        checked => ?_
      refine logic.returning ⟨by simp [demands], rfl, fun other same => ?_⟩
      cases same
      exact ⟨checked, by simp⟩
  · exact logic.sequence (logic.readProcedureName _) fun called _ =>
      logic.returning (.of_demands (by simp [demands]) rfl rfl)
  · exact logic.returning (.of_demands (by simp [demands]) rfl rfl)
  · exact logic.returning (.of_demands (by simp [demands]) rfl rfl)
  · exact logic.failing ofLine

theorem readInitialValue (name : String) (rest : List Token) :
    logic.Holds (readInitialValue name rest) fun value =>
      ∀ given ∈ value.toList, logic.Admits given := by
  unfold Command.readInitialValue
  split
  · exact logic.returning (by simp)
  · exact logic.failing trivial
  · refine logic.sequence (logic.reading (fun _ => by trivial) _) fun value
      admitted => ?_
    exact logic.returning (by simpa using admitted)
  · exact logic.failing trivial

end ReaderLogic

/-! ### Readers that look at the store -/

/-- Reads the bounds of a loop whose counter is known. -/
def readBounds (counter : String) (start stop : List Char)
    (step : Option (List Char)) :
    Parser Command := do
  let start ← readInt 2 start
  let stop ← readInt 3 stop
  return .forRange counter start stop (← step.mapM (readInt 4))

theorem ReaderLogic.readBounds (logic : ReaderLogic) (counter : String)
    (start stop : List Char) (step : Option (List Char)) :
    logic.Holds (readBounds counter start stop step) fun command =>
      (∃ start stop step, command = .forRange counter start stop step) ∧
        ∀ entry ∈ command.demands, logic.Meets entry.1 entry.2 := by
  refine logic.sequence (logic.readTyped _ _ _) fun start meetsStart => ?_
  refine logic.sequence (logic.readTyped _ _ _) fun stop meetsStop => ?_
  refine logic.sequence (logic.optional _ _ step) fun step meetsStep => ?_
  refine logic.returning ⟨⟨start, stop, step, rfl⟩, ?_⟩
  simpa [demands, meetsStart, meetsStop] using meetsStep

theorem readRange_eq (counter start stop : List Char)
    (step : Option (List Char)) :
    readRange counter start stop step =
      readCounter counter >>= fun counter =>
        readBounds counter start stop step := rfl

theorem get_apply (store : Store) :
    (get : Parser Store) store = .ok store store :=
  rfl

/-- An assignment is refused at once, or what stands behind its equals sign is
read. -/
theorem readAssignment_apply (name : List Char) (value : List Token)
    (store : Store) :
    (∃ fault : Fault, fault.OfLine ∧ readAssignment name value store =
      .error fault store) ∨
      store.contains (String.ofList name) = true ∧
        readAssignment name value store =
          (readValue .value (Token.join value) >>= fun result =>
            pure (.assign (String.ofList name) result)) store := by
  unfold readAssignment
  dsimp only
  split
  · exact .inl ⟨_, by trivial, rfl⟩
  · rw [bind_of_ok (get_apply store)]
    split
    · exact .inl ⟨_, by trivial, rfl⟩
    · next declared =>
        split
        · exact .inl ⟨_, by trivial, rfl⟩
        · exact .inr ⟨by simpa using declared, rfl⟩

/-- A name that is declared anew passes the check of names. -/
theorem declareName_apply {name : String} {store : Store}
    (missing : store.contains name = false) :
    (∃ fault, declareName name store = .error (.name fault) store) ∧
    Name.check name ≠ .ok () ∨
      Name.check name = .ok () ∧ declareName name store = .ok ()
        (store.insert name none) := by
  unfold declareName Store.declare
  cases checked : Name.check name with
  | error fault => exact .inl ⟨⟨fault, by simp [missing, Except.map]⟩, by simp⟩
  | ok _ => exact .inr ⟨rfl, by simp [missing, Except.map]⟩

theorem declareName_of_check {name : String} {store : Store}
    (missing : store.contains name = false)
    (checked : Name.check name = .ok ()) :
    declareName name store = .ok () (store.insert name none) := by
  rcases declareName_apply missing with ⟨_, bad⟩ | ⟨_, declared⟩
  · exact absurd checked bad
  · exact declared

/-- A declaration is refused at once, or it reads its value and then declares
its name. -/
theorem readDeclaration_apply (name : Token) (rest : List Token)
    (store : Store) :
    (∃ fault : Fault, fault.OfLine ∧ readDeclaration (name :: rest) store =
      .error fault store) ∨
      store.contains (String.ofList name.text) = false ∧
        Name.check (String.ofList name.text) = .ok () ∧
        readDeclaration (name :: rest) store =
          (readInitialValue (String.ofList name.text) rest >>= fun value =>
            declareName (String.ofList name.text) >>= fun _ =>
              pure (.declare (String.ofList name.text) value)) store := by
  unfold readDeclaration
  dsimp only
  generalize String.ofList name.text = word
  rw [bind_of_ok (get_apply store)]
  split
  · exact .inl ⟨_, by trivial, rfl⟩
  · next missing =>
      cases checked : Name.check word with
      | error fault =>
          have fails : checkName word store = .error (.name fault) store := by
            rw [checkName, checked]
          exact .inl ⟨.name fault, trivial, bind_of_error fails⟩
      | ok _ =>
          have passes : checkName word store = .ok () store := by
            rw [checkName, checked]
          exact .inr ⟨by simpa using missing, rfl, bind_of_ok passes⟩

/-- The counter of a loop is declared already, or it is refused, or it is
declared now. -/
theorem readCounter_apply (text : List Char) (store : Store) :
    store.contains (String.ofList text) = true ∧
        readCounter text store = .ok (String.ofList text) store ∨
      store.contains (String.ofList text) = false ∧
        ((∃ fault, readCounter text store = .error (.name fault) store) ∧
            Name.check (String.ofList text) ≠ .ok () ∨
          Name.check (String.ofList text) = .ok () ∧
            readCounter text store =
              .ok (String.ofList text)
                (store.insert (String.ofList text) none)) := by
  unfold readCounter
  dsimp only
  generalize String.ofList text = word
  rw [bind_of_ok (get_apply store)]
  cases present : store.contains word with
  | true => exact .inl ⟨rfl, rfl⟩
  | false =>
      refine .inr ⟨rfl, ?_⟩
      rcases declareName_apply present with ⟨⟨fault, fails⟩, bad⟩ |
        ⟨checked, declared⟩
      · exact .inl ⟨⟨fault, bind_of_error fails⟩, bad⟩
      · exact .inr ⟨checked, bind_of_ok declared⟩

/-! ### Forms of lines -/

/-- How the text of a line is read. -/
inductive LineForm (text : List Char) : Parser Command → Prop where
  | refused (fault : Fault) (ofLine : fault.OfLine) :
      LineForm text (throw fault)
  | assigning (name : List Char) (value : List Token) :
      LineForm text (readAssignment name value)
  | declaring (name : Token) (rest : List Token)
      (tokens : Token.scan (Line.split text).2 = name :: rest) :
      LineForm text (readDeclaration (name :: rest))
  | counting (counter start stop : List Char) (step : Option (List Char))
      (keyword :
        Keyword.ofWord? (String.ofList (Line.split text).1) = some .forRange)
      (parameters : Token.parameters (Line.split text).2 =
        counter :: start :: stop :: step.toList) :
      LineForm text (readRange counter start stop step)
  | stating (wrongCount : Fault) (ofLine : wrongCount.OfLine)
      (keyword : Keyword) (noLoop : keyword ≠ .forRange) :
      LineForm text
        (readStatement wrongCount keyword
          (Token.parameters (Line.split text).2))

theorem lineForm_loop {text : List Char} {wrongCount : Fault}
    (ofLine : wrongCount.OfLine)
    (keyword :
      Keyword.ofWord? (String.ofList (Line.split text).1) = some .forRange) :
    LineForm text
      (readStatement wrongCount .forRange
        (Token.parameters (Line.split text).2)) := by
  cases parameters : Token.parameters (Line.split text).2 with
  | nil => exact .refused wrongCount ofLine
  | cons counter bounds =>
      rcases bounds with _ | ⟨start, _ | ⟨stop, _ | ⟨step, _ | ⟨other, more⟩⟩⟩⟩
      · exact .refused wrongCount ofLine
      · exact .refused wrongCount ofLine
      · exact .counting counter start stop none keyword parameters
      · exact .counting counter start stop (some step) keyword parameters
      · exact .refused wrongCount ofLine

theorem lineForm_readKeyword (text : List Char) :
    LineForm text (readKeyword text) := by
  unfold readKeyword
  dsimp only
  split
  · exact .refused _ trivial
  · cases tokens : Token.scan (Line.split text).2 with
    | nil => exact .refused _ trivial
    | cons name rest => exact .declaring name rest tokens
  · next keyword _ found =>
      by_cases loop : keyword = .forRange
      · subst loop
        exact lineForm_loop (by trivial) found
      · exact .stating _ (by trivial) keyword loop

theorem lineForm_ofText (text : List Char) : LineForm text (ofText text) := by
  unfold ofText
  split
  · split
    · exact .assigning _ _
    · exact lineForm_readKeyword text
  · exact lineForm_readKeyword text

/-! ### What lines answer -/

/-- At any store, a reader answers what satisfies `post`, or finds a fault of
the line. -/
def Answers {α : Type} (reader : Parser α) (post : α → Prop) : Prop :=
  ∀ store : Store,
    (∀ answer final, reader store = .ok answer final → post answer) ∧
    ∀ fault final, reader store = .error fault final → fault.OfLine

namespace Answers

variable {α β : Type}

theorem returning {answer : α} {post : α → Prop} (holds : post answer) :
    Answers (pure answer) post := by
  intro store
  constructor
  · intro other final read
    cases read
    exact holds
  · intro fault final failed
    cases failed

theorem failing {fault : Fault} {post : α → Prop} (ofLine : fault.OfLine) :
    Answers (throw fault) post := by
  intro store
  constructor
  · intro answer final read
    cases read
  · intro other final failed
    cases failed
    exact ofLine

theorem sequence {first : Parser α} {next : α → Parser β} {middle : α → Prop}
    {post : β → Prop} (answersFirst : Answers first middle)
    (answersNext : ∀ answer, middle answer → Answers (next answer) post) :
    Answers (first >>= next) post := by
  intro store
  obtain ⟨answered, faulted⟩ := answersFirst store
  cases outcome : first store with
  | ok answer final =>
      rw [bind_of_ok outcome]
      exact answersNext answer (answered answer final outcome) final
  | error fault final =>
      rw [bind_of_error outcome]
      constructor
      · intro answer other read
        cases read
      · intro cause other failed
        cases failed
        exact faulted fault final outcome

theorem mono {reader : Parser α} {strong weak : α → Prop}
    (answers : Answers reader strong)
    (weaker : ∀ answer, strong answer → weak answer) : Answers reader weak := by
  intro store
  obtain ⟨answered, faulted⟩ := answers store
  exact ⟨fun answer final read => weaker answer (answered answer final read),
    faulted⟩

theorem readValue {fault : ValueFault → Fault}
    (ofLine : ∀ cause, (fault cause).OfLine) (text : List Char) :
    Answers (readValue fault text) fun _ => True := by
  intro store
  constructor
  · intro _ _ _
    trivial
  · intro cause final failed
    unfold Command.readValue at failed
    split at failed
    · cases failed
    · cases failed
      exact ofLine _

theorem declareName (name : String) :
    Answers (declareName name) fun _ => True := by
  intro store
  constructor
  · intro _ _ _
    trivial
  · intro fault final failed
    unfold Command.declareName at failed
    split at failed
    · cases failed
    · cases failed
      trivial

def logic : ReaderLogic where
  Admits _ := True
  Holds := Answers
  literal _ := trivial
  returning := returning
  failing := failing
  sequence := sequence
  reading := readValue

end Answers

/-- What the kinds of its parameters and the name that it declares have
passed. -/
structure Checked (command : Command) : Prop where
  fits : ∀ entry ∈ command.demands, entry.1.Fits entry.2
  declares : ∀ name value, command = .declare name value →
    Name.check name = .ok ()

theorem answers_readAssignment (name : List Char) (value : List Token) :
    Answers (readAssignment name value) Checked := by
  intro store
  rcases readAssignment_apply name value store with ⟨fault, ofLine, refused⟩ |
    ⟨_, read⟩
  · rw [refused]
    exact Answers.failing ofLine store
  · rw [read]
    refine Answers.sequence (.readValue (fun _ => by trivial) _)
      (fun result _ => ?_) store
    refine .returning ⟨?_, nofun⟩
    exact List.forall_mem_singleton.mpr fun _ _ => rfl

theorem answers_readDeclaration (name : Token) (rest : List Token) :
    Answers (readDeclaration (name :: rest)) Checked := by
  intro store
  rcases readDeclaration_apply name rest store with
    ⟨fault, ofLine, refused⟩ | ⟨missing, checked, read⟩
  · rw [refused]
    exact Answers.failing ofLine store
  · rw [read]
    refine Answers.sequence (Answers.logic.readInitialValue _ rest)
      (fun value _ => ?_) store
    refine Answers.sequence (.declareName _) fun _ _ => .returning ⟨?_, ?_⟩
    · exact List.forall_mem_map.mpr fun _ _ _ _ => rfl
    · intro other given same
      cases same
      exact checked

theorem answers_readCounter (text : List Char) :
    Answers (readCounter text) (· = String.ofList text) := by
  have same : Answers (pure (String.ofList text)) (· = String.ofList text) :=
    .returning rfl
  intro store
  rcases readCounter_apply text store with ⟨_, read⟩ |
    ⟨_, ⟨⟨fault, refused⟩, _⟩ | ⟨_, read⟩⟩
  · rw [read]
    exact same store
  · rw [refused]
    exact Answers.failing (by trivial) store
  · rw [read]
    exact same (store.insert _ none)

theorem answers_readRange (counter start stop : List Char)
    (step : Option (List Char)) :
    Answers (readRange counter start stop step) Checked := by
  refine (answers_readCounter counter).sequence fun word _ => ?_
  refine (Answers.logic.readBounds word start stop step).mono
    fun command read => ?_
  obtain ⟨⟨first, last, width, rfl⟩, meets⟩ := read
  exact ⟨fun entry member => (meets entry member).2, nofun⟩

/-- What is read from a line has been checked, and what is wrong with a line is
its own fault. -/
theorem answers_ofText (text : List Char) : Answers (ofText text) Checked := by
  have form := lineForm_ofText text
  generalize ofText text = reader at form
  cases form with
  | refused fault ofLine => exact .failing ofLine
  | assigning name value => exact answers_readAssignment name value
  | declaring name rest tokens => exact answers_readDeclaration name rest
  | counting counter start stop step =>
      exact answers_readRange counter start stop step
  | stating wrongCount ofLine keyword noLoop =>
      refine (Answers.logic.readStatement ofLine noLoop _).mono
        fun command stated => ?_
      refine ⟨fun entry member => (stated.demands entry member).2, ?_⟩
      rintro name value rfl
      cases stated.target

end Command

end PenScript
