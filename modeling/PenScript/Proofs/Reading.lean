import PenScript.Command.Effect
import PenScript.Execution
import PenScript.Proofs.Stateful
import PenScript.Proofs.Store

/-!
# Reading values

On a store of literals an operation has nothing to remember there, so reading is
plain evaluation and leaves the store alone.  What a command reads is composed
of such readings, each with a coercion; `CoercionProperty` carries a property
from them to the command.
-/

namespace PenScript

open Stateful

/-! ### Plain evaluation -/

/-- The literal that a variable holds. -/
def Store.literal (store : Store) (name : String) : Except ValueFault Literal :=
  match store.find? name with
  | none => .error (.undeclared name)
  | some (some (.literal result)) => .ok result
  | some _ => .error (.uninitialised name)

/-- Evaluates a value without remembering anything: the left operand, then the
right one, and then the operator. -/
def Value.plain (lookup : String → Except ValueFault Literal) :
    Value → Except ValueFault Literal
  | .literal result => .ok result
  | .settled result => .ok result
  | .reference name => lookup name
  | .pending op left right =>
      match left.plain lookup with
      | .error fault => .error fault
      | .ok leftAnswer =>
          match right.plain lookup with
          | .error fault => .error fault
          | .ok rightAnswer => op.apply leftAnswer rightAnswer

/-- The variables that a value refers to. -/
def Value.variables : Value → List String
  | .literal _ => []
  | .settled _ => []
  | .reference name => [name]
  | .pending _ left right => left.variables ++ right.variables

theorem Store.literal_eq_ok_iff {store : Store} {name : String}
    {result : Literal} :
    store.literal name = .ok result ↔
      store.value? name = some (.literal result) := by
  rw [Store.value?_eq_some_iff, Store.literal]
  split <;> simp_all

theorem Store.readWithin_of_held {store : Store} {name : String}
    {result : Literal} (held : store.value? name = some (.literal result))
    (hops : Nat) :
    Store.readWithin hops name store = (.ok result, store) := by
  unfold Store.readWithin
  rw [Store.value?_eq_some_iff.mp held]

theorem Store.LiteralOnly.readWithin {store : Store}
    (literals : store.LiteralOnly) (hops : Nat) (name : String) :
    Store.readWithin hops name store = (store.literal name, store) := by
  cases held : store.value? name with
  | some value =>
      obtain ⟨result, rfl⟩ := literals.value?_literal held
      rw [Store.readWithin_of_held held, Store.literal_eq_ok_iff.mpr held]
  | none =>
      unfold Store.readWithin Store.literal
      cases found : store.find? name with
      | none => rfl
      | some slot =>
          cases slot with
          | none => rfl
          | some value =>
              cases held.symm.trans (Store.value?_eq_some_iff.mpr found)

/-- Where reading its variables leaves the store alone, so does evaluating a
value. -/
theorem Value.evaluateWith_of_variables {read : VariableReader} {store : Store}
    {lookup : String → Except ValueFault Literal} {value : Value}
    (reads : ∀ name ∈ value.variables, read name store = (lookup name, store)) :
    (value.evaluateWith read store).answer = value.plain lookup ∧
      (value.evaluateWith read store).store = store := by
  induction value with
  | literal result => exact ⟨rfl, rfl⟩
  | settled result => exact ⟨rfl, rfl⟩
  | reference name => simp [evaluateWith, plain, reads name List.mem_cons_self]
  | pending op left right leftPlain rightPlain =>
      obtain ⟨leftReads, rightReads⟩ := List.forall_mem_append.mp reads
      replace leftPlain := leftPlain leftReads
      replace rightPlain := rightPlain rightReads
      unfold evaluateWith plain
      generalize left.evaluateWith read store = leftOutcome at leftPlain
      obtain ⟨leftAnswer, leftValue, leftStore⟩ := leftOutcome
      obtain ⟨sameAnswer, sameStore⟩ := leftPlain
      dsimp only at sameAnswer sameStore
      subst sameAnswer sameStore
      cases left.plain lookup with
      | error fault => exact ⟨rfl, rfl⟩
      | ok leftAnswer =>
          dsimp only
          generalize right.evaluateWith read leftStore =
            rightOutcome at rightPlain
          obtain ⟨rightAnswer, rightValue, rightStore⟩ := rightOutcome
          obtain ⟨sameAnswer, sameStore⟩ := rightPlain
          dsimp only at sameAnswer sameStore
          subst sameAnswer sameStore
          cases right.plain lookup with
          | error fault => exact ⟨rfl, rfl⟩
          | ok rightAnswer =>
              dsimp only
              cases op.apply leftAnswer rightAnswer with
              | error fault => exact ⟨rfl, rfl⟩
              | ok result => exact ⟨rfl, rfl⟩

theorem Value.evaluateWith_plain {read : VariableReader} {store : Store}
    {lookup : String → Except ValueFault Literal}
    (reads : ∀ name, read name store = (lookup name, store)) (value : Value) :
    (value.evaluateWith read store).answer = value.plain lookup ∧
      (value.evaluateWith read store).store = store :=
  evaluateWith_of_variables fun name _ => reads name

/-- On literals, reading is plain evaluation, and the store stays as it is. -/
theorem Value.read_of_literalOnly {store : Store} (literals : store.LiteralOnly)
    (value : Value) :
    value.read store =
      (MonadExcept.ofExcept (value.plain store.literal) : Value.Reading Literal)
        store := by
  obtain ⟨answer, same⟩ :=
    value.evaluateWith_plain (literals.readWithin store.size)
  simp only [Value.read, Value.evaluate, answer, same]
  cases value.plain store.literal <;> rfl

/-! ### What a command reads -/

def ColorSource.values : ColorSource → List Value
  | .single color => [color]
  | .channels red green blue alpha => [red, green, blue] ++ alpha.toList

def Shape.values : Shape → List Value
  | .regular sides radius rotation => [sides, radius] ++ rotation.toList
  | .square size rotation => size :: rotation.toList
  | .rectangle width height => [width, height]
  | .corners x₁ y₁ x₂ y₂ => [x₁, y₁, x₂, y₂]
  | .triangle base height => base :: height.toList
  | .path points => points.flatMap fun (x, y) => [x, y]

/-- The parameters of a command. -/
def Command.values : Command → List Value
  | .moveTo x y => [x, y]
  | .lineTo x y => [x, y]
  | .polygon shape => shape.values
  | .circle radius => [radius]
  | .fill setting => [setting]
  | .fillColor color => color.values
  | .penColor color => color.values
  | .penWidth width => [width]
  | .declare _ value => value.toList
  | .assign _ value => [value]
  | .ifTrue guard => [guard]
  | .whileTrue guard => [guard]
  | .forRange _ start stop step => [start, stop] ++ step.toList
  | .dot | .clear | .resetPen | .define _ | .call _ | .ret | .endBlock => []

/-- What a command asks of a parameter. -/
inductive Demand where
  /-- A literal of this kind, or of one that stands in for it. -/
  | kind (expected : Kind)
  /-- A truth value or a color, for the fill. -/
  | setting
  | anything

/-- Whether a literal of a kind meets a demand. -/
def Demand.accepts : Demand → Kind → Bool
  | .kind expected, found => found.coercesTo expected
  | .setting, found => found == .bool || found == .color
  | .anything, _ => true

def ColorSource.demands : ColorSource → List (Demand × Value)
  | .single color => [(.kind .color, color)]
  | .channels red green blue alpha =>
      ([red, green, blue] ++ alpha.toList).map (.kind .int, ·)

def Shape.demands : Shape → List (Demand × Value)
  | .regular sides radius rotation =>
      (.kind .int, sides) :: (radius :: rotation.toList).map (.kind .double, ·)
  | .corners x₁ y₁ x₂ y₂ => [x₁, y₁, x₂, y₂].map (.kind .int, ·)
  | .path points => (points.flatMap fun (x, y) => [x, y]).map (.kind .int, ·)
  | measured => measured.values.map (.kind .double, ·)

/-- The parameters of a command, each with what the command asks of it. -/
def Command.demands : Command → List (Demand × Value)
  | .moveTo x y => [x, y].map (.kind .int, ·)
  | .lineTo x y => [x, y].map (.kind .int, ·)
  | .polygon shape => shape.demands
  | .circle radius => [(.kind .double, radius)]
  | .fill setting => [(.setting, setting)]
  | .fillColor color => color.demands
  | .penColor color => color.demands
  | .penWidth width => [(.kind .double, width)]
  | .declare _ value => value.toList.map (.anything, ·)
  | .assign _ value => [(.anything, value)]
  | .ifTrue guard => [(.kind .bool, guard)]
  | .whileTrue guard => [(.kind .bool, guard)]
  | .forRange _ start stop step =>
      ([start, stop] ++ step.toList).map (.kind .int, ·)
  | .dot | .clear | .resetPen | .define _ | .call _ | .ret | .endBlock => []

theorem Command.map_demands (command : Command) :
    command.demands.map Prod.snd = command.values := by
  have all (demand : Demand) (values : List Value) :
      (values.map (demand, ·)).map Prod.snd = values := by
    rw [List.map_map]
    exact List.map_id values
  have source (color : ColorSource) :
      color.demands.map Prod.snd = color.values := by
    cases color with
    | single color => rfl
    | channels red green blue alpha => exact all _ _
  cases command with
  | polygon shape =>
      cases shape with
      | regular sides radius rotation => exact congrArg (sides :: ·) (all _ _)
      | _ => exact all _ _
  | fillColor color => exact source color
  | penColor color => exact source color
  | declare name value => exact all _ _
  | forRange counter start stop step => exact all _ _
  | _ => rfl

theorem Command.mem_values_of_demands {command : Command}
    {entry : Demand × Value} (member : entry ∈ command.demands) :
    entry.2 ∈ command.values := by
  rw [← command.map_demands]
  exact List.mem_map_of_mem member

/-- A property of computations that read the store.  It holds of each coercion
of a value that is admitted to it, and is kept when computations are put
together. -/
structure CoercionProperty where
  Admits : Demand → Value → Prop
  Holds : {α : Type} → Value.Reading α → Prop
  returning : ∀ {α : Type} (answer : α), Holds (pure answer)
  refusing : ∀ {α : Type} (fault : RangeFault),
    Holds (throw (.outOfRange fault) : Value.Reading α)
  sequence :
    ∀ {α β : Type} {first : Value.Reading α} {next : α → Value.Reading β},
    Holds first → (∀ answer, Holds (next answer)) → Holds (first >>= next)
  readInt : ∀ {value : Value}, Admits (.kind .int) value → Holds value.readInt
  readDouble : ∀ {value : Value}, Admits (.kind .double) value →
    Holds value.readDouble
  readBool : ∀ {value : Value}, Admits (.kind .bool) value →
    Holds value.readBool
  readColor : ∀ {value : Value}, Admits (.kind .color) value →
    Holds value.readColor
  readSetting : ∀ {value : Value}, Admits .setting value →
    Holds (value.read >>= fun result => MonadExcept.ofExcept result.fillStroke)
  reading : ∀ {value : Value}, Admits .anything value → Holds value.read

namespace CoercionProperty

variable (property : CoercionProperty)

theorem readMeasure {value : Value}
    (admitted : property.Admits (.kind .double) value) (measure : Measure) :
    property.Holds (value.readMeasure measure) := by
  refine property.sequence (property.readDouble admitted) fun x => ?_
  split
  · exact property.refusing _
  · exact property.returning x

theorem readAngle {angle : Option Value}
    (admitted : ∀ value ∈ angle.toList, property.Admits (.kind .double) value) :
    property.Holds (Value.readAngle angle) := by
  cases angle with
  | none => exact property.returning 0.0
  | some value => exact property.readDouble (admitted value (by simp))

theorem readChannel {value : Value}
    (admitted : property.Admits (.kind .int) value) :
    property.Holds value.readChannel := by
  refine property.sequence (property.readInt admitted) fun n => ?_
  split
  · exact property.returning _
  · exact property.refusing _

theorem readSides {value : Value}
    (admitted : property.Admits (.kind .int) value) :
    property.Holds value.readSides := by
  refine property.sequence (property.readInt admitted) fun n => ?_
  split
  · exact property.refusing _
  · split
    · exact property.refusing _
    · exact property.returning _

theorem readPoint {x y : Value} (admittedX : property.Admits (.kind .int) x)
    (admittedY : property.Admits (.kind .int) y) :
    property.Holds (Value.readPoint x y) :=
  property.sequence (property.readInt admittedX) fun _ =>
    property.sequence (property.readInt admittedY) fun _ => property.returning _

theorem readRange {start stop : Value} {step : Option Value}
    (admitted : ∀ value ∈ [start, stop] ++ step.toList,
      property.Admits (.kind .int) value) :
    property.Holds (Execution.readRange start stop step) := by
  refine property.sequence (property.readInt (admitted start (by simp)))
    fun first => ?_
  refine property.sequence (property.readInt (admitted stop (by simp)))
    fun last => ?_
  have checked (n : Int64) : property.Holds
      (if n = 0 then throw (.outOfRange .zeroStep)
        else pure ⟨first.toInt, last.toInt, n.toInt⟩ :
            Value.Reading Execution.Range) := by
    split
    · exact property.refusing _
    · exact property.returning _
  cases step with
  | none => exact property.sequence (property.returning 1) checked
  | some step =>
      exact property.sequence (property.readInt (admitted step (by simp)))
        checked

theorem readSource {source : ColorSource}
    (admitted : ∀ entry ∈ source.demands, property.Admits entry.1 entry.2) :
    property.Holds source.read := by
  cases source with
  | single color => exact property.readColor (admitted _ List.mem_cons_self)
  | channels red green blue alpha =>
      simp only [ColorSource.demands, List.forall_mem_map, List.mem_append,
        List.mem_cons, List.not_mem_nil, or_false] at admitted
      refine property.sequence (property.readChannel (admitted red (by simp)))
        fun _ => ?_
      refine property.sequence (property.readChannel (admitted green (by simp)))
        fun _ => ?_
      refine property.sequence (property.readChannel (admitted blue (by simp)))
        fun _ => ?_
      cases alpha with
      | none => exact property.returning _
      | some alpha =>
          exact property.sequence
              (property.readChannel (admitted alpha (by simp))) fun _ =>
            property.returning _

theorem readPoints {points : List (Value × Value)}
    (admitted : ∀ value ∈ points.flatMap (fun (x, y) => [x, y]),
      property.Admits (.kind .int) value) :
    property.Holds (points.mapM fun (x, y) => Value.readPoint x y) := by
  induction points with
  | nil => exact property.returning []
  | cons point rest ih =>
      obtain ⟨x, y⟩ := point
      simp only [List.flatMap_cons, List.mem_append, List.mem_cons,
        List.not_mem_nil, or_false] at admitted
      rw [List.mapM_cons]
      refine property.sequence
        (property.readPoint (admitted x (by simp)) (admitted y (by simp)))
          fun _ => ?_
      refine property.sequence
        (ih fun value member => admitted value (.inr member)) fun _ => ?_
      exact property.returning _

theorem points {shape : Shape}
    (admitted : ∀ entry ∈ shape.demands, property.Admits entry.1 entry.2) :
    property.Holds shape.points := by
  cases shape with
  | regular sides radius rotation =>
      simp only [Shape.demands, List.forall_mem_cons, List.forall_mem_map]
          at admitted
      obtain ⟨admittedSides, admittedRadius, admittedRotation⟩ := admitted
      refine property.sequence (property.readSides admittedSides) fun _ => ?_
      refine property.sequence (property.readMeasure admittedRadius _)
        fun _ => ?_
      exact property.sequence (property.readAngle admittedRotation) fun _ =>
        property.returning _
  | square size rotation =>
      simp only [Shape.demands, Shape.values, List.forall_mem_map,
        List.forall_mem_cons] at admitted
      refine property.sequence (property.readMeasure admitted.1 _) fun _ => ?_
      exact property.sequence (property.readAngle admitted.2) fun _ =>
        property.returning _
  | rectangle width height =>
      simp only [Shape.demands, Shape.values, List.forall_mem_map,
        List.forall_mem_cons] at admitted
      refine property.sequence (property.readMeasure admitted.1 _) fun _ => ?_
      exact property.sequence (property.readMeasure admitted.2.1 _) fun _ =>
        property.returning _
  | corners x₁ y₁ x₂ y₂ =>
      simp only [Shape.demands, List.forall_mem_map, List.forall_mem_cons]
          at admitted
      obtain ⟨admittedX₁, admittedY₁, admittedX₂, admittedY₂, _⟩ := admitted
      refine property.sequence (property.readPoint admittedX₁ admittedY₁)
        fun _ => ?_
      exact property.sequence (property.readPoint admittedX₂ admittedY₂)
        fun _ => property.returning _
  | triangle base height =>
      simp only [Shape.demands, Shape.values, List.forall_mem_map,
        List.forall_mem_cons] at admitted
      cases height with
      | none =>
          exact property.sequence (property.readMeasure admitted.1 _) fun _ =>
            property.returning _
      | some height =>
          refine property.sequence (property.readMeasure admitted.1 _)
            fun _ => ?_
          exact property.sequence
              (property.readMeasure (admitted.2 height (by simp)) _) fun _ =>
            property.returning _
  | path points =>
      simp only [Shape.demands, List.forall_mem_map] at admitted
      exact property.readPoints admitted

end CoercionProperty

/-! ### Properties of reading alone -/

/-- Whether a fault comes from computing with values, and not from a text or a
variable. -/
def ValueFault.ofComputation : ValueFault → Bool
  | .typeMismatch _ _ | .operandMismatch _ _ _ | .divisionByZero |
      .undefinedOperator _ _
  | .overflow | .outOfRange _ => true
  | .unrecognised _ | .malformedNumber _ | .undeclared _ | .uninitialised _ =>
      false

theorem ValueFault.category_of_ofComputation {fault : ValueFault}
    (computed : fault.ofComputation = true) :
    fault.code.category = .evaluation := by
  cases fault <;> first | rfl | cases computed

/-- A property of computations that read the store.  It holds of reading an
admitted value, and is kept when computations are put together. -/
structure ReadingProperty where
  Admits : Value → Prop
  Holds : {α : Type} → Value.Reading α → Prop
  returning : ∀ {α : Type} (answer : α), Holds (pure answer)
  failing : ∀ {α : Type} {fault : ValueFault}, fault.ofComputation = true →
    Holds (throw fault : Value.Reading α)
  sequence :
    ∀ {α β : Type} {first : Value.Reading α} {next : α → Value.Reading β},
    Holds first → (∀ answer, Holds (next answer)) → Holds (first >>= next)
  reading : ∀ {value : Value}, Admits value → Holds value.read

namespace ReadingProperty

variable (property : ReadingProperty)

theorem ofExcept {α : Type} {outcome : Except ValueFault α}
    (computed : ∀ fault, outcome = .error fault → fault.ofComputation = true) :
    property.Holds (MonadExcept.ofExcept outcome) := by
  cases outcome with
  | ok answer => exact property.returning answer
  | error fault => exact property.failing (computed fault rfl)

theorem readInt {value : Value} (admitted : property.Admits value) :
    property.Holds value.readInt := by
  refine property.sequence (property.reading admitted) fun result =>
    property.ofExcept ?_
  intro fault failed
  cases result with
  | int n => cases failed
  | double x =>
      simp only [Literal.toInt, Literal.intOfDouble] at failed
      split at failed
      · split at failed <;> cases failed
        rfl
      · cases failed
        rfl
  | bool b => cases failed; rfl
  | color c => cases failed; rfl

theorem readDouble {value : Value} (admitted : property.Admits value) :
    property.Holds value.readDouble := by
  refine property.sequence (property.reading admitted) fun result =>
    property.ofExcept ?_
  intro fault failed
  cases result <;> cases failed <;> rfl

theorem readBool {value : Value} (admitted : property.Admits value) :
    property.Holds value.readBool := by
  refine property.sequence (property.reading admitted) fun result =>
    property.ofExcept ?_
  intro fault failed
  cases result <;> cases failed <;> rfl

theorem readColor {value : Value} (admitted : property.Admits value) :
    property.Holds value.readColor := by
  refine property.sequence (property.reading admitted) fun result =>
    property.ofExcept ?_
  intro fault failed
  cases result <;> cases failed <;> rfl

/-- Where any value that is admitted may be read, it may be coerced as well. -/
@[reducible] def coercions : CoercionProperty where
  Admits _ := property.Admits
  Holds := property.Holds
  returning := property.returning
  refusing _ := property.failing rfl
  sequence := property.sequence
  readInt := property.readInt
  readDouble := property.readDouble
  readBool := property.readBool
  readColor := property.readColor
  readSetting := by
    intro value admitted
    refine property.sequence (property.reading admitted) fun result =>
      property.ofExcept ?_
    intro fault failed
    cases result <;> cases failed <;> rfl
  reading := property.reading

theorem readRange {start stop : Value} {step : Option Value}
    (admitted : ∀ value ∈ [start, stop] ++ step.toList, property.Admits value) :
    property.Holds (Execution.readRange start stop step) :=
  property.coercions.readRange admitted

end ReadingProperty

/-- A range has the bounds and the step that are read for it, one after the
other. -/
theorem Execution.readRange_eq_ok {start stop : Value} {step : Option Value}
    {store after : Store} {range : Range}
    (read : readRange start stop step store = .ok range after) :
    ∃ n m between last, start.readInt store = .ok n between ∧
      stop.readInt between = .ok m last ∧
      range.start = n.toInt ∧ range.stop = m.toInt ∧
      ∀ given, step = some given →
        ∃ k, given.readInt last = .ok k after ∧ range.step = k.toInt := by
  obtain ⟨n, between, first, rest⟩ := bind_eq_ok_iff.mp read
  obtain ⟨m, last, second, rest⟩ := bind_eq_ok_iff.mp rest
  cases step with
  | none =>
      cases rest
      refine ⟨n, m, between, _, first, second, rfl, rfl, ?_⟩
      rintro given ⟨⟩
  | some given =>
      obtain ⟨k, final, third, made⟩ := bind_eq_ok_iff.mp rest
      dsimp only at made
      by_cases zero : k = 0
      · rw [if_pos zero] at made
        cases made
      · rw [if_neg zero] at made
        cases made
        refine ⟨n, m, between, last, first, second, rfl, rfl, ?_⟩
        rintro _ ⟨⟩
        exact ⟨k, third, rfl⟩

end PenScript
