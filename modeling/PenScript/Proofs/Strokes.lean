import PenScript.Proofs.Atomicity
import PenScript.Proofs.Independence
import PenScript.Proofs.PositionalReading

/-!
# What a canvas receives

A stroke that a run makes is made by one command, at one point of the course,
and that command was read from one line of the script.  So what is known of
lines, when they are read, and of commands, when they are carried out, is known
of the canvas: polygons have as many corners as their line asks for, and no
radius or width is below zero.
-/

namespace PenScript

open Stateful

namespace Stateful

/-- Whatever a computation answers, in any state, satisfies `post`. -/
def Gives {ε σ α : Type} (computation : EStateM ε σ α) (post : α → Prop) :
    Prop :=
  ∀ ⦃before after : σ⦄ ⦃answer : α⦄, computation before = .ok answer after →
    post answer

namespace Gives

variable {ε σ α β : Type} {post : α → Prop}

theorem returning {answer : α} (holds : post answer) :
    Gives (pure answer : EStateM ε σ α) post := by
  intro before after other given
  cases given
  exact holds

theorem failing {fault : ε} : Gives (throw fault : EStateM ε σ α) post := by
  intro before after answer given
  cases given

theorem sequence {first : EStateM ε σ β} {next : β → EStateM ε σ α}
    {middle : β → Prop} (gives : Gives first middle)
    (givesNext : ∀ answer, middle answer → Gives (next answer) post) :
    Gives (first >>= next) post := by
  intro before after answer given
  obtain ⟨between, state, one, other⟩ := bind_eq_ok_iff.mp given
  exact givesNext between (gives one) other

/-- Only the last answer matters. -/
theorem behind {first : EStateM ε σ β} {next : β → EStateM ε σ α}
    (gives : ∀ answer, Gives (next answer) post) :
    Gives (first >>= next) post := by
  have anything : Gives first fun _ => True := fun _ _ _ _ => trivial
  exact anything.sequence fun answer _ => gives answer

/-- There are as many answers as items. -/
theorem length_mapM (action : β → EStateM ε σ α) (items : List β) :
    Gives (items.mapM action) (·.length = items.length) := by
  induction items with
  | nil => exact returning rfl
  | cons item rest ih =>
      rw [List.mapM_cons]
      apply behind
      intro answer
      refine sequence ih fun answers same => ?_
      exact returning (congrArg Nat.succ same)

end Gives

end Stateful

/-! ### Corners of shapes -/

namespace Shape

/-- The number of corners that a shape has, whatever its values are. -/
def corners? : Shape → Option Nat
  | .regular _ _ _ => none
  | .square _ _ | .rectangle _ _ | .corners _ _ _ _ => some 4
  | .triangle _ _ => some 3
  | .path points => some points.length

theorem length_points {shape : Shape} {count : Nat}
    (fixed : shape.corners? = some count) :
    Gives shape.points (·.length = count) := by
  cases shape with
  | regular sides radius rotation => cases fixed
  | square size rotation =>
      cases fixed
      exact .behind fun _ => .behind fun _ => .returning rfl
  | rectangle width height =>
      cases fixed
      exact .behind fun _ => .behind fun _ => .returning rfl
  | corners x₁ y₁ x₂ y₂ =>
      cases fixed
      exact .behind fun _ => .behind fun _ => .returning rfl
  | triangle base height =>
      cases fixed
      cases height with
      | none => exact .behind fun _ => .returning rfl
      | some height => exact .behind fun _ => .behind fun _ => .returning rfl
  | path points =>
      cases fixed
      exact .length_mapM _ points

/-- A regular polygon has the number of sides that it is given, which is within
bounds. -/
theorem sides_of_points {sides radius : Value} {rotation : Option Value}
    {store final : Store} {points : List Point}
    (read :
      (Shape.regular sides radius rotation).points store = .ok points final) :
    ∃ n middle, sides.readInt store = .ok n middle ∧ n.toInt = points.length ∧
      3 ≤ points.length ∧ points.length ≤ Geometry.maxSides := by
  obtain ⟨count, middle, counted, rest⟩ := bind_eq_ok_iff.mp read
  have length : points.length = count := by
    have gives : Gives
        (do
          let radius ← radius.readMeasure .radius
          return Geometry.regularPolygon count radius
            (← Value.readAngle rotation))
        fun points => points.length = count :=
      .behind fun _ => .behind fun _ =>
        .returning (by simp [Geometry.regularPolygon])
    exact gives rest
  obtain ⟨n, between, given, returned⟩ := bind_eq_ok_iff.mp counted
  refine ⟨n, between, given, ?_⟩
  split at returned
  · cases returned
  · split at returned
    · cases returned
    · cases returned
      omega

end Shape

namespace Value

theorem gives_readMeasure (value : Value) (measure : Measure) :
    Gives (value.readMeasure measure) (¬· < 0.0) := by
  apply Gives.behind
  intro x
  split
  · exact .failing
  · next least => exact .returning least

end Value

/-! ### Strokes of commands -/

/-- The number of corners of a stroke that is a polygon. -/
def Stroke.corners? : Stroke → Option Nat
  | .polygon points => some points.length
  | _ => none

/-- The radius of a circle or the width of the pen. -/
def Stroke.size? : Stroke → Option Float
  | .circle radius => some radius
  | .penWidth width => some width
  | _ => none

/-- A stroke that is neither a polygon nor given by a measure. -/
def Stroke.plain : Stroke → Bool
  | .polygon _ | .circle _ | .penWidth _ => false
  | _ => true

namespace Command

/-- How a command comes to a stroke at a store. -/
inductive Makes (store : Store) : Command → Stroke → Prop where
  | polygon {shape : Shape} {points : List Point} {final : Store}
      (read : shape.points store = .ok points final) :
      Makes store (.polygon shape) (.polygon points)
  | measured {command : Command} {stroke : Stroke} {value : Value}
      {measure : Measure} {size : Float} {final : Store}
      (read : value.readMeasure measure store = .ok size final)
      (given : stroke.size? = some size) : Makes store command stroke
  | plain {command : Command} {stroke : Stroke} (plain : stroke.plain = true) :
      Makes store command stroke

theorem of_drawing {reading : Value.Reading Stroke} {store final : Store}
    {stroke : Stroke}
    (outcome : drawing reading store = .ok (.draw stroke) final) :
    reading store = .ok stroke final := by
  unfold drawing EStateM.adaptExcept at outcome
  split at outcome
  · cases outcome
  · next made =>
      obtain ⟨answer, middle, read, returned⟩ := bind_eq_ok_iff.mp made
      cases outcome
      cases returned
      exact read

theorem draws_of_effect {command : Command} {store final : Store}
    {stroke : Stroke}
    (outcome : command.effect store = .ok (.draw stroke) final) :
    command.draws = true := by
  cases drawing : command.draws with
  | true => rfl
  | false =>
      cases steering : command.steers with
      | true =>
          rw [effect_of_steers steering] at outcome
          cases outcome
      | false =>
          rcases effect_of_sets drawing steering with ⟨name, rfl⟩ |
            ⟨name, value, _, form⟩
          · rcases (declaring_eq_ok outcome).2 with ⟨same, _⟩ |
              ⟨same, _⟩ <;> cases same
          · rw [form] at outcome
            obtain ⟨result, same⟩ := adapted_eq_ok outcome
            cases same

theorem gives_fillStroke (result : Literal) :
    Gives (MonadExcept.ofExcept result.fillStroke : Value.Reading Stroke)
      (·.plain = true) := by
  cases result with
  | bool enabled => exact .returning rfl
  | color color => exact .returning rfl
  | int n => exact .failing
  | double x => exact .failing

/-- Most commands make a plain stroke, whatever they read for it. -/
theorem makes_of_effect {command : Command} {store final : Store}
    {stroke : Stroke}
    (outcome : command.effect store = .ok (.draw stroke) final) :
    command.Makes store stroke := by
  have drawing := draws_of_effect outcome
  have plainly {reading : Value.Reading Stroke}
      (gives : Gives reading (·.plain = true))
      (form : command.effect = Command.drawing reading) :
      command.Makes store stroke := by
    rw [form] at outcome
    exact .plain (gives (of_drawing outcome))
  cases command with
  | moveTo x y => exact plainly (.behind fun _ => .returning rfl) rfl
  | lineTo x y => exact plainly (.behind fun _ => .returning rfl) rfl
  | polygon shape =>
      obtain ⟨points, _, read, made⟩ := bind_eq_ok_iff.mp (of_drawing outcome)
      cases made
      exact .polygon read
  | circle value =>
      obtain ⟨radius, _, read, made⟩ := bind_eq_ok_iff.mp (of_drawing outcome)
      cases made
      exact .measured read rfl
  | penWidth value =>
      obtain ⟨width, _, read, made⟩ := bind_eq_ok_iff.mp (of_drawing outcome)
      cases made
      exact .measured read rfl
  | dot => exact plainly (.returning rfl) rfl
  | clear => exact plainly (.returning rfl) rfl
  | resetPen => exact plainly (.returning rfl) rfl
  | fill setting => exact plainly (.behind gives_fillStroke) rfl
  | fillColor color => exact plainly (.behind fun _ => .returning rfl) rfl
  | penColor color => exact plainly (.behind fun _ => .returning rfl) rfl
  | _ => cases drawing

theorem size_of_effect {command : Command} {store final : Store}
    {stroke : Stroke}
    (outcome : command.effect store = .ok (.draw stroke) final) {size : Float}
    (given : stroke.size? = some size) : ¬size < 0.0 := by
  cases makes_of_effect outcome with
  | polygon => cases given
  | measured read same =>
      cases given.symm.trans same
      exact Value.gives_readMeasure _ _ read
  | plain plain => cases stroke <;> cases plain <;> cases given

end Command

/-! ### Polygons of lines -/

namespace Keyword

/-- The number of corners of the polygon that a statement asks for.  For a
regular polygon, this is the value of its first parameter at the store.  A text
that can be read means the same whatever is declared. -/
def corners? (keyword : Keyword) (parameters : List (List Char))
    (store : Store) : Option Nat :=
  match keyword with
  | .square | .quadrilateral | .rectangle => some 4
  | .triangle => some 3
  | .regularPolygon => do
      let sides ← (Value.parse (fun _ => true) (← parameters.head?)).toOption
      return (← answer? (sides.readInt store)).toInt.toNat
  | _ => none

/-- The shapes that a statement may have. -/
inductive AsksFor (keyword : Keyword) (parameters : List (List Char))
    (shape : Shape) : Prop where
  | three (asked : keyword.corners? parameters = fun _ => some 3)
      (given : shape.corners? = some 3)
  | four (asked : keyword.corners? parameters = fun _ => some 4)
      (given : shape.corners? = some 4)
  | sides {text : List Char} {sides radius : Value} {rotation : Option Value}
      (asked : keyword = .regularPolygon) (first : parameters.head? = some text)
      (read : Value.parse (fun _ => true) text = .ok sides)
      (given : shape = .regular sides radius rotation)

theorem AsksFor.length_points {keyword : Keyword}
    {parameters : List (List Char)} {shape : Shape}
    (asks : keyword.AsksFor parameters shape) {store final : Store}
    {points : List Point} (read : shape.points store = .ok points final) :
    keyword.corners? parameters store = some points.length ∧
      3 ≤ points.length ∧ points.length ≤ Geometry.maxSides := by
  cases asks with
  | three asked given =>
      rw [asked, Shape.length_points given read]
      exact ⟨rfl, by decide, by decide⟩
  | four asked given =>
      rw [asked, Shape.length_points given read]
      exact ⟨rfl, by decide, by decide⟩
  | sides asked first parsed given =>
      subst asked given
      obtain ⟨n, _, counted, same, bounds⟩ := Shape.sides_of_points read
      have requested :
          corners? .regularPolygon parameters store = some n.toInt.toNat := by
        rw [corners?, first]
        dsimp only [Option.bind_eq_bind, Option.bind_some]
        rw [parsed]
        dsimp only [Except.toOption, Option.bind_some]
        rw [counted]
        rfl
      rw [requested, same, Int.toNat_natCast]
      exact ⟨rfl, bounds⟩

end Keyword

namespace Command

/-- A polygon is what the statement asks for. -/
def ShapedBy (keyword : Keyword) (parameters : List (List Char)) :
    Command → Prop
  | .polygon shape => keyword.AsksFor parameters shape
  | _ => True

theorem gives_readTyped (expected : Kind) (position : Nat) (text : List Char) :
    Gives (readTyped expected position text)
      (Value.parse (fun _ => true) text = .ok ·) := by
  have parsed : Gives (readParameter position text)
      (Value.parse (fun _ => true) text = .ok ·) := by
    intro before after value read
    unfold readParameter readValue at read
    split at read
    · next given =>
        cases read
        exact Value.parse_of_wider (fun _ _ => rfl) given
    · cases read
  refine parsed.sequence fun value given => ?_
  split
  · exact .returning given
  · split
    · exact .returning given
    · exact .failing

theorem length_readPoints (position : Nat)
    (points : List (List Char × List Char)) :
    Gives (readPoints position points) (·.length = points.length) := by
  induction points generalizing position with
  | nil => exact .returning rfl
  | cons point rest ih =>
      refine .behind fun _ => .behind fun _ =>
        (ih (position + 2)).sequence fun read same => ?_
      exact .returning (congrArg Nat.succ same)

/-- Most statements end with a command that is no polygon, whatever they have
read before. -/
theorem shapedBy_readStatement (wrongCount : Fault) (keyword : Keyword)
    (parameters : List (List Char)) :
    Gives (readStatement wrongCount keyword parameters)
      (ShapedBy keyword parameters) := by
  have regular {sides : List Char} {rest : List (List Char)}
      {value radius : Value} {rotation : Option Value}
      (parsed : Value.parse (fun _ => true) sides = .ok value) :
      Keyword.AsksFor .regularPolygon (sides :: rest)
        (.regular value radius rotation) :=
    .sides rfl rfl parsed rfl
  unfold readStatement
  split
  all_goals try exact .returning trivial
  all_goals try exact .behind fun _ => .returning trivial
  all_goals try exact .behind fun _ => .behind fun _ => .returning trivial
  · refine (gives_readTyped _ _ _).sequence fun sides parsed => ?_
    exact .behind fun _ => .returning (regular parsed)
  · refine (gives_readTyped _ _ _).sequence fun sides parsed => ?_
    exact .behind fun _ => .behind fun _ => .returning (regular parsed)
  · exact .behind fun _ => .returning (.four rfl rfl)
  · exact .behind fun _ => .behind fun _ => .returning (.four rfl rfl)
  · exact (length_readPoints _ _).sequence fun _ same =>
      .returning (.four rfl (congrArg some same))
  · exact .behind fun _ => .behind fun _ => .returning (.four rfl rfl)
  · refine .behind fun _ => .behind fun _ => .behind fun _ => ?_
    exact .behind fun _ => .returning (.four rfl rfl)
  · exact (length_readPoints _ _).sequence fun _ same =>
      .returning (.four rfl (congrArg some same))
  · exact .behind fun _ => .returning (.three rfl rfl)
  · exact .behind fun _ => .behind fun _ => .returning (.three rfl rfl)
  · exact (length_readPoints _ _).sequence fun _ same =>
      .returning (.three rfl (congrArg some same))
  · exact .behind fun _ => .behind fun _ => .behind fun _ => .behind fun _ =>
      .returning trivial
  · exact .behind fun _ => .behind fun _ => .behind fun _ => .behind fun _ =>
      .returning trivial
  · exact .failing

/-- A polygon is what the statement on the line asks for. -/
def Asked (text : List Char) : Command → Prop
  | .polygon shape =>
      ∃ keyword, Keyword.ofWord? (String.ofList (Line.split text).1) =
        some keyword ∧
      keyword.AsksFor (Token.parameters (Line.split text).2) shape
  | _ => True

theorem asked_readKeyword (text : List Char) :
    Gives (readKeyword text) (Asked text) := by
  unfold readKeyword
  dsimp only
  split
  · exact .failing
  · cases Token.scan (Line.split text).2 with
    | nil => exact .failing
    | cons name rest =>
        intro before after command read
        rcases readDeclaration_apply name rest before with ⟨fault, _, refused⟩ |
          ⟨_, _, same⟩
        · cases refused.symm.trans read
        · rw [same] at read
          obtain ⟨value, _, _, rest⟩ := bind_eq_ok_iff.mp read
          obtain ⟨_, _, _, returned⟩ := bind_eq_ok_iff.mp rest
          cases returned
          trivial
  · next keyword _ found =>
      intro before after command read
      have shaped := shapedBy_readStatement _ _ _ read
      cases command with
      | polygon shape => exact ⟨keyword, found, shaped⟩
      | _ => trivial

theorem asked_ofText (text : List Char) : Gives (ofText text) (Asked text) := by
  unfold ofText
  split
  · next name value _ =>
      split
      · intro before after command read
        rcases readAssignment_apply name.text value
          before with ⟨fault, _, refused⟩ | ⟨_, same⟩
        · cases refused.symm.trans read
        · rw [same] at read
          obtain ⟨result, _, _, returned⟩ := bind_eq_ok_iff.mp read
          cases returned
          trivial
      · exact asked_readKeyword text
  · exact asked_readKeyword text

end Command

/-- The number of corners of the polygon that a line asks for. -/
def Line.corners? (line : Line) (store : Store) : Option Nat := do
  let keyword ← Keyword.ofWord? (String.ofList (split line.text).1)
  keyword.corners? (Token.parameters (split line.text).2) store

/-- A polygon has as many corners as the line of its command asks for. -/
theorem Command.corners_of_effect {line : Line} {command : Command}
    {before after : Store} (read : ofText line.text before = .ok command after)
    {store final : Store} {points : List Point}
    (outcome : command.effect store = .ok (.draw (.polygon points)) final) :
    line.corners? store = some points.length ∧
      3 ≤ points.length ∧ points.length ≤ Geometry.maxSides := by
  cases makes_of_effect outcome with
  | polygon given =>
      obtain ⟨keyword, found, asks⟩ := asked_ofText line.text read
      rw [Line.corners?, found]
      exact asks.length_points given
  | measured _ given => cases given
  | plain plain => cases plain

/-- The command was read from the line of the script that has this number. -/
def Command.ReadFrom (source : String) (command : Command) (number : Nat) :
    Prop :=
  ∃ line ∈ Line.ofSource source, number = line.number ∧
    ∃ before after, ofText line.text before = .ok command after

/-! ### Strokes of a course -/

theorem Command.canvas_performAll {command : Command} {machine final : Machine}
    (performed : performAll [command] machine = .ok () final) :
    final.canvas = machine.canvas ∨
      ∃ stroke store, command.effect machine.store = .ok (.draw stroke) store ∧
        final.canvas = machine.canvas.push stroke := by
  obtain ⟨_, middle, here, returned⟩ := bind_eq_ok_iff.mp performed
  cases returned
  unfold perform at here
  split at here
  · next effect store outcome =>
      cases here
      cases effect with
      | draw stroke => exact .inr ⟨stroke, store, outcome, rfl⟩
      | _ => exact .inl rfl
  · cases here

namespace Execution.State

variable {limits : Limits} {procedures : List Procedure}

/-- The command of a node is the next one of a run, and makes the stroke at the
store. -/
inductive Draws (item : Node) (store : Store) (stroke : Stroke) :
    State → Prop where
  | intro {rest : List Task} {callers : List (List Task)} {canvas : Canvas}
      {final : Store}
      (made : item.command.effect store = .ok (.draw stroke) final) :
      Draws item store stroke
        (.running (.node item :: rest) callers ⟨canvas, store⟩)

/-- A step leaves the canvas as it is, or the command of a node makes one
stroke. -/
theorem Steps.canvas {before after : State}
    (steps : Steps limits procedures before after)
    (literals : before.machine.store.LiteralOnly) :
    after.machine.canvas = before.machine.canvas ∨
      ∃ item store stroke, before.Draws item store stroke ∧
        after.machine.canvas = before.machine.canvas.push stroke := by
  rcases steps.performed_or_failed literals with
    ⟨performed, _⟩ | ⟨_, _, _, _, _, rfl, _, rfl⟩
  · match before with
    | .ended _ => cases steps
    | .running [] callers machine =>
        cases performed
        exact .inl rfl
    | .running (.node item :: rest) callers machine =>
        rcases Command.canvas_performAll performed with same |
          ⟨stroke, _, made, drawn⟩
        · exact .inl same
        · exact .inr ⟨item, machine.store, stroke, .intro made, drawn⟩
    | .running (.repeating guard line body rounds :: rest) callers machine =>
        cases performed
        exact .inl rfl
    | .running (.counting counter range body value :: rest) callers machine =>
        dsimp only [commands, Task.commands] at performed
        split at performed
        · rcases Command.canvas_performAll performed with same |
            ⟨stroke, _, made, _⟩
          · exact .inl same
          · cases Command.draws_of_effect made
        · cases performed
          exact .inl rfl
  · exact .inl rfl

/-- On the course to a state, only nodes that the run has come to have made
strokes. -/
theorem Reaches.canvas {nodes : List Node} {machine : Machine} {state : State}
    (literals : machine.store.LiteralOnly)
    (reaches : Reaches limits procedures (.start nodes machine) state) :
    ∃ strokes : Canvas, state.machine.canvas = machine.canvas ++ strokes ∧
      ∀ stroke ∈ strokes, ∃ item store earlier,
        Reaches limits procedures (.start nodes machine) earlier ∧
        earlier.Draws item store stroke := by
  induction reaches with
  | refl => exact ⟨#[], by simp [start, State.machine], by simp⟩
  | @tail before after earlier steps ih =>
      obtain ⟨strokes, canvas, made⟩ := ih
      rcases steps.canvas (Reaches.literalOnly literals earlier) with
        same | ⟨item, store, stroke, draws, drawn⟩
      · exact ⟨strokes, same.trans canvas, made⟩
      · refine ⟨strokes.push stroke, ?_, ?_⟩
        · rw [drawn, canvas, Array.append_push]
        · intro other member
          rcases Array.mem_push.mp member with inside | rfl
          · exact made other inside
          · exact ⟨item, store, before, earlier, draws⟩

theorem Draws.begins {Admits : Command → Nat → Prop} {item : Node}
    {store : Store} {stroke : Stroke} {state : State}
    (draws : state.Draws item store stroke) (admitted : state.Admitted Admits) :
    Admits item.command item.line := by
  cases draws
  exact (admitted _ List.mem_cons_self _ List.mem_cons_self).begins

/-- A course comes only to commands of its program. -/
theorem Reaches.admitted {Admits : Command → Nat → Prop}
    (defined : ∀ procedure ∈ procedures, ∀ entry ∈ procedure.commands,
      Admits entry.1 entry.2) {before after : State}
    (reaches : Reaches limits procedures before after)
    (admitted : before.Admitted Admits) : after.Admitted Admits := by
  induction reaches with
  | refl => exact admitted
  | tail _ steps ih => exact steps.admitted defined ih

end Execution.State

namespace Session

/-- How a line has made a stroke: the course of the script came to a node that
was read from the line, and its command made the stroke from the values in the
store. -/
inductive Draws (session : Session) (line : Line) (store : Store)
    (stroke : Stroke) : Prop where
  | intro {state : Execution.State} {item : Node} {before after : Store}
      (leads : session.Leads session.course state)
      (draws : state.Draws item store stroke) (number : item.line = line.number)
      (read : Command.ofText line.text before = .ok item.command after)

theorem Draws.command {session : Session} {line : Line} {store : Store}
    {stroke : Stroke} (draws : session.Draws line store stroke) :
    ∃ command before after final,
      Command.ofText line.text before = .ok command after ∧
      command.effect store = .ok (.draw stroke) final := by
  obtain ⟨_, ⟨made⟩, _, read⟩ := draws
  exact ⟨_, _, _, _, read, made⟩

/-- Executing a script leaves the canvas of its run.  A strict session that
fails clears it then. -/
theorem canvas_execute (session : Session) :
    session.execute.2.canvas = (finalState session.outcome).canvas ∨
      session.execute.2.canvas =
        (finalState session.outcome).canvas.push .clear := by
  cases ended : session.outcome with
  | ok _ final =>
      rw [execute_of_outcome_ok ended]
      exact .inl rfl
  | error failure final =>
      cases leniency : session.config.leniency with
      | strict =>
          rw [execute_of_outcome_error_strict ended leniency]
          exact .inr rfl
      | pardon =>
          rw [execute_of_outcome_error_pardon ended leniency]
          exact .inl rfl

theorem canvas_load (session : Session) (source : String) :
    (session.load source).2.canvas = session.canvas := by
  unfold load
  dsimp only
  split
  · rfl
  · cases session.config.leniency <;> rfl

theorem readFrom_load (session : Session) (source : String) :
    ∀ entry ∈ (session.load source).2.program.commands,
      entry.1.ReadFrom source entry.2 := by
  intro entry member
  rcases session.load_session source with ⟨program, _⟩ | ⟨empty, _⟩
  · rw [program] at member
    obtain ⟨line, listed, number, read⟩ := Program.read_of_mem_parse member
    exact ⟨line, listed, number.symm, read⟩
  · rw [empty] at member
    cases member

/-- The strokes on the course of a loaded script are made by its lines. -/
theorem canvas_outcome (session : Session) (source : String) :
    let loaded := (session.load source).2
    ∃ strokes :
    Canvas, (finalState loaded.outcome).canvas = session.canvas ++ strokes ∧
      ∀ stroke ∈ strokes, ∃ line ∈ Line.ofSource source, ∃ store,
        loaded.Draws line store stroke := by
  intro loaded
  have read :
      ∀ entry ∈ loaded.program.commands, entry.1.ReadFrom source entry.2 :=
    session.readFrom_load source
  obtain ⟨items, defined⟩ := Program.forall_mem_commands.mp read
  have literals := (session.fresh_load source).vacant.literalOnly
  obtain ⟨strokes, canvas, made⟩ :=
    Execution.State.Reaches.canvas literals loaded.leads_outcome
  refine ⟨strokes, ?_, ?_⟩
  · rw [← session.canvas_load source]
    exact canvas
  · intro stroke member
    obtain ⟨item, store, state, leads, draws⟩ := made stroke member
    have admitted : state.Admitted (Command.ReadFrom source) :=
      Execution.State.Reaches.admitted defined leads
        (Execution.State.admitted_start items _)
    obtain ⟨line, listed, number, before, after, read⟩ := draws.begins admitted
    exact ⟨line, listed, store, .intro leads draws number read⟩

/-- Running a script adds the strokes that its lines make.  If a strict session
fails, the canvas is cleared after that. -/
theorem canvas_run (session : Session) (source : String) :
    ∃ strokes :
    Canvas, (session.run source).2.canvas = session.canvas ++ strokes ∧
      ∀ stroke ∈ strokes, stroke = .clear ∨
        ∃ line ∈ Line.ofSource source, ∃ store,
          (session.load source).2.Draws line store stroke := by
  obtain ⟨strokes, canvas, made⟩ := session.canvas_outcome source
  rcases session.run_session source with loads | executes
  · refine ⟨#[], ?_, by simp⟩
    rw [loads, canvas_load, Array.append_empty]
  · rw [executes]
    rcases (session.load source).2.canvas_execute with same | cleared
    · exact ⟨strokes, same.trans canvas,
        fun stroke member => .inr (made stroke member)⟩
    · refine ⟨strokes.push .clear, ?_, ?_⟩
      · rw [cleared, canvas, Array.append_push]
      · intro stroke member
        rcases Array.mem_push.mp member with inside | last
        · exact .inr (made stroke inside)
        · exact .inl last

/-- Whatever has been done with a session before, running a script adds strokes
to its canvas of which the following holds.  A polygon has between three and ten
thousand corners: it was made by a line of the script, and has as many corners
as this line asks for with the values that the variables had then.  No radius of
a circle and no width of the pen is below zero. -/
theorem strokes_of_run (session : Session) (source : String) :
    let loaded := (session.load source).2
    ∃ strokes :
    Canvas, (session.run source).2.canvas = session.canvas ++ strokes ∧
      (∀ points, .polygon points ∈ strokes →
        3 ≤ points.length ∧ points.length ≤ 10000 ∧
        ∃ line ∈ Line.ofSource source, ∃ store,
          loaded.Draws line store (.polygon points) ∧
          line.corners? store = some points.length) ∧
      (∀ radius, .circle radius ∈ strokes → ¬radius < 0.0) ∧
      ∀ width, .penWidth width ∈ strokes → ¬width < 0.0 := by
  intro loaded
  obtain ⟨strokes, canvas, made⟩ := session.canvas_run source
  have sizes {stroke : Stroke} (member : stroke ∈ strokes) {size : Float}
      (given : stroke.size? = some size) : ¬size < 0.0 := by
    rcases made _ member with rfl | ⟨line, listed, store, draws⟩
    · cases given
    · obtain ⟨_, _, _, _, _, drawn⟩ := draws.command
      exact Command.size_of_effect drawn given
  refine ⟨strokes, canvas, ?_, ?_, ?_⟩
  · intro points member
    rcases made _ member with clear | ⟨line, listed, store, draws⟩
    · cases clear
    · obtain ⟨_, _, _, _, read, drawn⟩ := draws.command
      obtain ⟨asked, least, most⟩ := Command.corners_of_effect read drawn
      exact ⟨least, most, line, listed, store, draws, asked⟩
  · exact fun radius member => sizes member rfl
  · exact fun width member => sizes member rfl

/-- A regular polygon in a loop has three sides in the first round and five in
the second.  The circle below zero was not made by the script. -/
theorem strokes_of_run_growing_polygon :
    let source :=
      "var n = 3\nwhile n < 6\nrp n, 10\nn = n + 2\nend\ntriangle 5\n" ++
      "rectangle 0, 0, 4, 3\ncircle 0.5\npenwidth 0"
    let session := (new {} true).draw (.circle (-1))
    let drawn := (session.run source).2.canvas.toList
    drawn.map Stroke.corners? =
      [none, some 3, some 5, some 3, some 4, none, none] ∧
    drawn.drop 5 = [.circle 0.5, .penWidth 0] ∧ ¬(0.5 : Float) < 0.0 ∧
    ¬(0 : Float) < 0.0 ∧
    ∃ points, .polygon points ∈ drawn ∧ points.length = 5 ∧
      ∃ line ∈ Line.ofSource source, ∃ store,
        (session.load source).2.Draws line store (.polygon points) ∧
        line.corners? store = some 5 := by
  intro source session drawn
  have facts :
      drawn.map Stroke.corners? =
        [none, some 3, some 5, some 3, some 4, none, none] ∧
      drawn.drop 5 = [.circle 0.5, .penWidth 0] := by decide +kernel
  obtain ⟨strokes, canvas, polygons, radii, widths⟩ :=
    strokes_of_run session source
  have split : drawn = .circle (-1) :: strokes.toList := by
    have same := congrArg Array.toList canvas
    rw [Array.toList_append] at same
    exact same
  rw [split] at facts ⊢
  obtain ⟨counts, last⟩ := facts
  have received {stroke : Stroke}
      (listed : stroke ∈ [.circle 0.5, .penWidth 0]) :
      stroke ∈ strokes := by
    rw [← last] at listed
    exact Array.mem_toList_iff.mp (List.mem_of_mem_drop (i := 4) listed)
  have five : some 5 ∈ strokes.toList.map Stroke.corners? := by
    rw [(List.cons.inj counts).2]
    decide
  obtain ⟨stroke, member, count⟩ := List.mem_map.mp five
  refine ⟨counts, last, radii _ (received List.mem_cons_self),
    widths _ (received (List.mem_cons_of_mem _ List.mem_cons_self)), ?_⟩
  cases stroke with
  | polygon points =>
      obtain ⟨_, _, line, listed, store, draws, asked⟩ :=
        polygons points (Array.mem_toList_iff.mp member)
      have length : points.length = 5 := Option.some.inj count
      rw [length] at asked
      exact ⟨points, List.mem_cons_of_mem _ member, length, line, listed, store,
        draws, asked⟩
  | _ => cases count

end Session

end PenScript
