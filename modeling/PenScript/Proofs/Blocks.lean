import Mathlib.Data.List.Induction
import PenScript.Program.Assembly
import PenScript.Proofs.Effect

/-!
# The grammar of blocks

The commands of a script make up a forest: a command that opens a block heads
the nodes up to its `end`.  A program is assembled with a stack of open blocks
instead.  The two agree on which scripts are accepted and on what is made of
them, and a script that is not accepted is refused at the first command that
cannot stand where it does.
-/

namespace PenScript

/-- The names of the procedures defined by commands, in their order. -/
def definedNames (word : List (Command × Nat)) : List String :=
  word.filterMap fun entry => entry.1.procedureName?

@[simp] theorem definedNames_nil : definedNames [] = [] := rfl

@[simp] theorem definedNames_cons (entry : Command × Nat)
    (word : List (Command × Nat)) :
    definedNames (entry :: word) = entry.1.procedureName?.toList ++
      definedNames word := by
  cases found : entry.1.procedureName? <;> simp [definedNames, found]

@[simp] theorem definedNames_append (first second : List (Command × Nat)) :
    definedNames (first ++ second) =
      definedNames first ++ definedNames second := by
  simp [definedNames]

theorem definedNames_block (header : Command) (line endLine : Nat)
    (inner word : List (Command × Nat)) :
    definedNames ((header, line) :: (inner ++ (.endBlock, endLine) :: word)) =
      header.procedureName?.toList ++
        (definedNames inner ++ definedNames word) := by
  simp [Command.procedureName?]

theorem Command.procedureName?_eq_some_iff {command : Command} {name : String} :
    command.procedureName? = some name ↔ command = .define name := by
  cases command <;> simp [procedureName?]

theorem Command.procedureName?_eq_none {command : Command}
    (notDefine : ∀ name, command = .define name → False) :
    command.procedureName? = none := by
  cases found : command.procedureName? with
  | none => rfl
  | some name =>
      exact absurd (procedureName?_eq_some_iff.mp found) (notDefine name)

theorem Command.procedureName?_of_closed {command : Command}
    (closed : command.opensBlock = false) : command.procedureName? = none := by
  cases command <;> first | rfl | cases closed

theorem Command.ne_endBlock_of_opens {header : Command}
    (opens : header.opensBlock = true) :
    header ≠ .endBlock := by
  rintro rfl
  cases opens

namespace Node

/-! ### Forests -/

/-- The forest that the commands of a word make up, each at its line. -/
inductive Derives : List (Command × Nat) → List Node → Prop where
  | nil : Derives [] []
  | leaf {command : Command} {line : Nat} {word : List (Command × Nat)}
      {forest : List Node}
      (closed : command.opensBlock = false) (notEnd : command ≠ .endBlock)
      (rest : Derives word forest) :
      Derives ((command, line) :: word) (.leaf command line :: forest)
  | block {header : Command} {line endLine : Nat}
      {inner word : List (Command × Nat)}
      {body forest : List Node} (opens : header.opensBlock = true)
      (inside : Derives inner body) (rest : Derives word forest) :
      Derives ((header, line) :: (inner ++ (.endBlock, endLine) :: word))
        (.block header line body :: forest)

mutual

/-- What is left of a node when every definition is taken out. -/
def withoutDefinitions : Node → List Node
  | .leaf command line => [.leaf command line]
  | .block header line body =>
      match header.procedureName? with
      | some _ => []
      | none => [.block header line (withoutDefinitionsList body)]

/-- List counterpart of `Node.withoutDefinitions`. -/
def withoutDefinitionsList : List Node → List Node
  | [] => []
  | node :: rest => node.withoutDefinitions ++ withoutDefinitionsList rest

end

mutual

/-- The procedures defined in a node, an inner one before the one around it. -/
def definitions : Node → List Procedure
  | .leaf _ _ => []
  | .block header line body =>
      definitionsList body ++
        match header.procedureName? with
        | some name => [⟨name, line, withoutDefinitionsList body⟩]
        | none => []

/-- List counterpart of `Node.definitions`. -/
def definitionsList : List Node → List Procedure
  | [] => []
  | node :: rest => node.definitions ++ definitionsList rest

end

mutual

/-- Every `ret` in a node is inside a definition, be it one that the node itself
is inside. -/
def ReturnsEnclosed (inside : Bool) : Node → Prop
  | .leaf command _ => command = .ret → inside = true
  | .block header _ body =>
      ReturnsEnclosedList (inside || header.procedureName?.isSome) body

/-- List counterpart of `Node.ReturnsEnclosed`. -/
def ReturnsEnclosedList (inside : Bool) : List Node → Prop
  | [] => True
  | node :: rest =>
      node.ReturnsEnclosed inside ∧ ReturnsEnclosedList inside rest

end

theorem withoutDefinitionsList_append (first second : List Node) :
    withoutDefinitionsList (first ++ second) =
      withoutDefinitionsList first ++ withoutDefinitionsList second := by
  induction first with
  | nil => rfl
  | cons node rest ih => simp [withoutDefinitionsList, ih]

theorem definitionsList_append (first second : List Node) :
    definitionsList (first ++ second) =
      definitionsList first ++ definitionsList second := by
  induction first with
  | nil => rfl
  | cons node rest ih => simp [definitionsList, ih]

theorem returnsEnclosedList_append {inside : Bool} {first second : List Node} :
    ReturnsEnclosedList inside (first ++ second) ↔
      ReturnsEnclosedList inside first ∧ ReturnsEnclosedList inside second := by
  induction first with
  | nil => simp [ReturnsEnclosedList]
  | cons node rest ih => simp [ReturnsEnclosedList, ih, and_assoc]

namespace Derives

theorem append {word more : List (Command × Nat)} {forest others : List Node}
    (first : Derives word forest) (second : Derives more others) :
    Derives (word ++ more) (forest ++ others) := by
  induction first with
  | nil => exact second
  | leaf closed notEnd _ ih => exact .leaf closed notEnd ih
  | block opens inside _ _ ih =>
      simpa using Derives.block opens inside ih

/-- What can follow a forest in a word: nothing, or the `end` of the block
around it. -/
def Ends (rest : List (Command × Nat)) : Prop :=
  ∀ entry more, rest = entry :: more → entry.1 = .endBlock

/-- A word can be taken for a forest in one way only, even if it goes on behind
it. -/
theorem unique_before {word other rest rest' : List (Command × Nat)}
    {forest forest' : List Node} (derives : Derives word forest)
    (derives' : Derives other forest') (ends : Ends rest) (ends' : Ends rest')
    (same : word ++ rest = other ++ rest') :
    word = other ∧ rest = rest' ∧ forest = forest' := by
  induction derives generalizing other rest rest' forest' with
  | nil =>
      cases derives' with
      | nil => exact ⟨rfl, same, rfl⟩
      | leaf closed notEnd _ => exact absurd (ends _ _ same) notEnd
      | block opens _ _ =>
          exact absurd (ends _ _ same) (Command.ne_endBlock_of_opens opens)
  | leaf closed notEnd _ ih =>
      cases derives' with
      | nil => exact absurd (ends' _ _ same.symm) notEnd
      | leaf _ _ later' =>
          obtain ⟨head, tail⟩ := List.cons.inj same
          cases head
          obtain ⟨rfl, rfl, rfl⟩ := ih later' ends ends' tail
          exact ⟨rfl, rfl, rfl⟩
      | block opens _ _ =>
          cases (List.cons.inj same).1
          rw [closed] at opens
          cases opens
  | block opens _ _ ihInside ihRest =>
      cases derives' with
      | nil =>
          exact absurd (ends' _ _ same.symm)
            (Command.ne_endBlock_of_opens opens)
      | leaf closed _ _ =>
          cases (List.cons.inj same).1
          rw [closed] at opens
          cases opens
      | block _ inside' later' =>
          obtain ⟨head, tail⟩ := List.cons.inj same
          cases head
          rw [List.append_eq, List.append_eq, List.append_assoc,
            List.append_assoc] at tail
          obtain ⟨rfl, behind, rfl⟩ := ihInside inside' (by rintro _ _ ⟨⟩; rfl)
            (by rintro _ _ ⟨⟩; rfl) tail
          obtain ⟨sameEnd, afterEnd⟩ := List.cons.inj behind
          cases sameEnd
          obtain ⟨rfl, rfl, rfl⟩ := ihRest later' ends ends' afterEnd
          exact ⟨rfl, rfl, rfl⟩

/-- A word has at most one derivation. -/
theorem unique {word : List (Command × Nat)} {forest other : List Node}
    (derives : Derives word forest) (derives' : Derives word other) :
    forest = other := by
  have ends : Ends [] := by
    rintro _ _ ⟨⟩
  exact (derives.unique_before derives' ends ends rfl).2.2

end Derives

/-- A definition comes before its body in the word, and behind it among the
procedures. -/
theorem mem_definedNames_of_derives {word : List (Command × Nat)}
    {forest : List Node} (derives : Derives word forest) (name : String) :
    name ∈ (definitionsList forest).map Procedure.name ↔
      name ∈ definedNames word := by
  induction derives with
  | nil => rfl
  | leaf closed _ _ ih =>
      simpa [definitionsList, definitions,
        Command.procedureName?_of_closed closed] using ih
  | @block header line endLine inner word body forest _ _ _ ihInside ihRest =>
      simp only [definitionsList, definitions, definedNames_block,
        List.map_append, List.mem_append, ihInside, ihRest]
      cases header.procedureName? with
      | none => simp
      | some own => simp [or_left_comm, or_assoc]

end Node

open Node (Derives ReturnsEnclosedList withoutDefinitionsList definitionsList)

/-- Whether one of the open blocks is a definition. -/
def insideDefinition (opened : List (Command × Nat)) : Bool :=
  opened.any fun heading => heading.1.procedureName?.isSome

theorem insideDefinition_cons (header : Command) (line : Nat)
    (opened : List (Command × Nat)) :
    insideDefinition ((header, line) :: opened) =
      (insideDefinition opened || header.procedureName?.isSome) := by
  rw [insideDefinition, List.any_cons, Bool.or_comm]
  rfl

namespace Assembly

/-! ### Assembling a forest -/

/-- Adds commands until one of them is refused, and keeps what has been
assembled by then. -/
def addAll : Assembly → List (Command × Nat) → Assembly × Option BlockFault
  | assembly, [] => (assembly, none)
  | assembly, (command, line) :: rest =>
      match assembly.add command line with
      | .error fault => (assembly, some fault)
      | .ok next => next.addAll rest

theorem addAll_append {assembly next : Assembly} {word : List (Command × Nat)}
    (added : assembly.addAll word = (next, none))
    (more : List (Command × Nat)) :
    assembly.addAll (word ++ more) = next.addAll more := by
  induction word generalizing assembly with
  | nil =>
      cases added
      rfl
  | cons entry rest ih =>
      unfold addAll at added
      rw [List.cons_append, addAll]
      split at added
      · cases added
      · next step => simpa only [step] using ih added

/-- What becomes of an assembly when the commands of a whole forest are
added. -/
def extend (forest : List Node) (assembly : Assembly) : Assembly :=
  let nodes := (withoutDefinitionsList forest).reverse
  let procedures := assembly.procedures ++ definitionsList forest
  match assembly.unclosed with
  | [] => ⟨[], nodes ++ assembly.items, procedures⟩
  | block :: outer =>
      ⟨{ block with body := nodes ++ block.body } :: outer, assembly.items,
        procedures⟩

theorem extend_nil (assembly : Assembly) : assembly.extend [] = assembly := by
  obtain ⟨_ | ⟨block, outer⟩, items, procedures⟩ := assembly <;>
    simp [extend, withoutDefinitionsList, definitionsList]

theorem extend_extend (assembly : Assembly) (first second : List Node) :
    (assembly.extend first).extend second =
      assembly.extend (first ++ second) := by
  obtain ⟨_ | ⟨block, outer⟩, items, procedures⟩ := assembly <;>
    simp [extend, Node.withoutDefinitionsList_append,
      Node.definitionsList_append]

theorem attach_leaf (assembly : Assembly) (command : Command) (line : Nat) :
    assembly.attach (.leaf command line) =
      assembly.extend [.leaf command line] := by
  obtain ⟨_ | ⟨block, outer⟩, items, procedures⟩ := assembly <;>
    simp [attach, extend, withoutDefinitionsList, Node.withoutDefinitions,
      definitionsList, Node.definitions]

theorem extend_openBlock (assembly : Assembly) (header : Command) (line : Nat)
    (body : List Node) :
    (assembly.openBlock header line).extend body =
      ⟨⟨header, line, (withoutDefinitionsList body).reverse⟩ ::
        assembly.unclosed,
        assembly.items, assembly.procedures ++ definitionsList body⟩ := by
  simp [openBlock, extend]

/-- The headers of the open blocks with their lines, the innermost first. -/
def headings (assembly : Assembly) : List (Command × Nat) :=
  assembly.unclosed.map fun block => (block.header, block.line)

theorem headings_openBlock (assembly : Assembly) (header : Command)
    (line : Nat) :
    (assembly.openBlock header line).headings =
      (header, line) :: assembly.headings := rfl

theorem headings_extend (assembly : Assembly) (forest : List Node) :
    (assembly.extend forest).headings = assembly.headings := by
  obtain ⟨_ | ⟨block, outer⟩, items, procedures⟩ := assembly <;> rfl

theorem procedures_extend (assembly : Assembly) (forest : List Node) :
    (assembly.extend forest).procedures =
      assembly.procedures ++ definitionsList forest := by
  obtain ⟨_ | ⟨block, outer⟩, items, procedures⟩ := assembly <;> rfl

theorem insideProcedure_eq (assembly : Assembly) :
    assembly.insideProcedure = insideDefinition assembly.headings := by
  have same :
      OpenBlock.definesProcedure = fun block =>
        block.header.procedureName?.isSome := by
    funext ⟨header, line, body⟩
    cases header <;> rfl
  rw [insideProcedure, same, insideDefinition, headings, List.any_map]
  rfl

theorem insideProcedure_openBlock (assembly : Assembly) (header : Command)
    (line : Nat) :
    (assembly.openBlock header line).insideProcedure =
      (assembly.insideProcedure || header.procedureName?.isSome) := by
  rw [insideProcedure_eq, headings_openBlock, insideDefinition_cons,
    insideProcedure_eq]

theorem insideProcedure_extend (assembly : Assembly) (forest : List Node) :
    (assembly.extend forest).insideProcedure = assembly.insideProcedure := by
  rw [insideProcedure_eq, insideProcedure_eq, headings_extend]

theorem defines_iff {assembly : Assembly} {name : String} :
    assembly.defines name = true ↔
      name ∈ assembly.procedures.map Procedure.name ∨
        .define name ∈ assembly.headings.map Prod.fst := by
  simp [defines, Procedure.find?, headings]

theorem not_defines_empty (name : String) : ¬empty.defines name := by
  rw [defines_iff]
  rintro (member | member) <;> cases member

theorem defines_extend (assembly : Assembly) (forest : List Node)
    (name : String) :
    (assembly.extend forest).defines name = true ↔
      assembly.defines name = true ∨
      name ∈ (definitionsList forest).map Procedure.name := by
  rw [defines_iff, defines_iff, headings_extend, procedures_extend,
    List.map_append, List.mem_append]
  exact or_right_comm

theorem defines_openBlock (assembly : Assembly) (header : Command) (line : Nat)
    (name : String) :
    (assembly.openBlock header line).defines name = true ↔
      assembly.defines name = true ∨ header.procedureName? = some name := by
  rw [defines_iff, defines_iff, headings_openBlock,
    Command.procedureName?_eq_some_iff, List.map_cons, List.mem_cons,
    eq_comm (a := header)]
  exact or_left_comm.trans or_comm

/-! #### Steps -/

theorem insert_of_fresh {procedure : Procedure} {procedures : List Procedure}
    (fresh : procedure.name ∉ procedures.map Procedure.name) :
    procedure.insert procedures = procedures ++ [procedure] := by
  induction procedures with
  | nil => rfl
  | cons first rest ih =>
      simp only [List.map_cons, List.mem_cons, not_or] at fresh
      simp [Procedure.insert, Ne.symm fresh.1, ih fresh.2]

theorem add_leaf {assembly : Assembly} {command : Command} (line : Nat)
    (closed : command.opensBlock = false) (notEnd : command ≠ .endBlock)
    (enclosed : command = .ret → assembly.insideProcedure = true) :
    assembly.add command line = .ok (assembly.extend [.leaf command line]) := by
  rw [← attach_leaf]
  unfold add
  split
  · exact absurd rfl notEnd
  · cases closed
  · rw [if_pos (enclosed rfl)]
  · rw [closed]
    rfl

theorem add_opening {assembly : Assembly} {header : Command} (line : Nat)
    (opens : header.opensBlock = true)
    (fresh : ∀ name, header.procedureName? = some name → ¬assembly.defines name) :
    assembly.add header line = .ok (assembly.openBlock header line) := by
  unfold add
  split
  · cases opens
  · next name => rw [if_neg (fresh name rfl)]
  · cases opens
  · rw [if_pos opens]

/-- The end of a block brings the whole of it to where it belongs. -/
theorem add_end {assembly : Assembly} {header : Command} (line endLine : Nat)
    {body : List Node}
    (fresh : ∀ name, header.procedureName? = some name →
      name ∉ (assembly.procedures ++ definitionsList body).map Procedure.name) :
    ((assembly.openBlock header line).extend body).add .endBlock endLine =
      .ok (assembly.extend [.block header line body]) := by
  rw [extend_openBlock]
  simp only [add, closeBlock, List.reverse_reverse]
  split
  · next name =>
      rw [insert_of_fresh (fresh name rfl)]
      obtain ⟨_ | ⟨block, outer⟩, items, procedures⟩ := assembly <;>
        simp [extend, withoutDefinitionsList, Node.withoutDefinitions,
          definitionsList, Node.definitions, Command.procedureName?]
  · next notDefine =>
      have plain := Command.procedureName?_eq_none notDefine
      obtain ⟨_ | ⟨block, outer⟩, items, procedures⟩ := assembly <;>
        simp [attach, extend, withoutDefinitionsList, Node.withoutDefinitions,
          definitionsList, Node.definitions, plain]

/-- A forest is assembled as a whole, whatever the blocks around it. -/
theorem addAll_of_derives {word : List (Command × Nat)} {forest : List Node}
    (derives : Derives word forest) {assembly : Assembly}
    (enclosed : ReturnsEnclosedList assembly.insideProcedure forest)
    (distinct : (definedNames word).Nodup)
    (fresh : ∀ name ∈ definedNames word, ¬assembly.defines name) :
    assembly.addAll word = (assembly.extend forest, none) := by
  induction derives generalizing assembly with
  | nil => rw [extend_nil, addAll]
  | @leaf command line word forest closed notEnd _ ih =>
      obtain ⟨enclosedLeaf, enclosedRest⟩ := enclosed
      rw [definedNames_cons, Command.procedureName?_of_closed closed]
          at distinct fresh
      rw [addAll, add_leaf line closed notEnd enclosedLeaf]
      have rest : (assembly.extend [.leaf command line]).addAll word =
          ((assembly.extend [.leaf command line]).extend forest, none) := by
        refine ih (by rwa [insideProcedure_extend]) distinct fun name member
          defined => ?_
        rcases (defines_extend assembly _ name).mp defined with before | inLeaf
        · exact fresh name member before
        · simp [definitionsList, Node.definitions] at inLeaf
      rw [extend_extend] at rest
      exact rest
  | @block header line endLine inner word body forest opens inside _
      ihInside ihRest =>
      obtain ⟨enclosedBody, enclosedRest⟩ := enclosed
      have blockDerives :
          Derives ((header, line) :: (inner ++ [(.endBlock, endLine)]))
          [.block header line body] := .block opens inside .nil
      simp only [definedNames_block, List.mem_append] at distinct fresh
      obtain ⟨_, distinctLater, ownApart⟩ := List.nodup_append.mp distinct
      obtain ⟨distinctInner, distinctRest, innerApart⟩ :=
        List.nodup_append.mp distinctLater
      have own {name : String} (defines : header.procedureName? = some name) :
          name ∈ header.procedureName?.toList := by simp [defines]
      have opened :
          assembly.add header line = .ok (assembly.openBlock header line) :=
        add_opening line opens fun name defines =>
          fresh name (.inl (own defines))
      have filled : (assembly.openBlock header line).addAll inner =
          ((assembly.openBlock header line).extend body, none) := by
        refine ihInside (by rwa [insideProcedure_openBlock]) distinctInner ?_
        intro name member defined
        rcases (defines_openBlock assembly header line name).mp
          defined with before | defines
        · exact fresh name (.inr (.inl member)) before
        · exact ownApart name (own defines) name (List.mem_append_left _ member)
            rfl
      have closed :
          ((assembly.openBlock header line).extend body).add .endBlock endLine =
          .ok (assembly.extend [.block header line body]) := by
        refine add_end line endLine fun name defines member => ?_
        rw [List.map_append, List.mem_append,
          Node.mem_definedNames_of_derives inside] at member
        rcases member with before | inBody
        · exact fresh name (.inl (own defines)) (defines_iff.mpr (.inl before))
        · exact ownApart name (own defines) name (List.mem_append_left _ inBody)
            rfl
      have rest : (assembly.extend [.block header line body]).addAll word =
          ((assembly.extend [.block header line body]).extend forest,
            none) := by
        refine ihRest (by rwa [insideProcedure_extend]) distinctRest ?_
        intro name member defined
        rcases (defines_extend assembly _ name).mp defined with before | inBlock
        · exact fresh name (.inr (.inr member)) before
        · rw [Node.mem_definedNames_of_derives blockDerives, definedNames_block,
            definedNames_nil, List.append_nil, List.mem_append] at inBlock
          rcases inBlock with defines | inBody
          · exact ownApart name defines name (List.mem_append_right _ member)
              rfl
          · exact innerApart name inBody name member rfl
      rw [extend_extend] at rest
      rw [addAll, opened]
      dsimp only
      rw [addAll_append filled, addAll, closed]
      exact rest

end Assembly

/-! ### Offending commands -/

/-- The headers of the blocks that are open behind a word, the innermost
first. -/
def openHeaders (word : List (Command × Nat)) : List (Command × Nat) :=
  word.foldl (fun opened entry =>
    if entry.1 = .endBlock then opened.tail
    else if entry.1.opensBlock then entry :: opened
    else opened) []

/-- A command that cannot stand behind a word, and what is wrong with it
there. -/
inductive Offends (before : List (Command × Nat)) :
    Command → BlockFault → Prop where
  | strayEnd (closed : openHeaders before = []) :
      Offends before .endBlock .strayEnd
  | duplicateProcedure {name : String} (defined : name ∈ definedNames before) :
      Offends before (.define name) (.duplicateProcedure name)
  | strayReturn (outside : insideDefinition (openHeaders before) = false) :
      Offends before .ret .strayReturn

/-- Each command of a word can stand where it does. -/
def Clean (word : List (Command × Nat)) : Prop :=
  ∀ before command line after, word = before ++ (command, line) :: after →
    ∀ fault, ¬Offends before command fault

theorem openHeaders_append_singleton (word : List (Command × Nat))
    (command : Command) (line : Nat) :
    openHeaders (word ++ [(command, line)]) =
      if command = .endBlock then (openHeaders word).tail
      else if command.opensBlock then (command, line) :: openHeaders word
      else openHeaders word := by
  simp [openHeaders]

theorem clean_nil : Clean [] := by
  intro before command line after split
  simp at split

theorem clean_append_singleton {word : List (Command × Nat)} {command : Command}
    {line : Nat} :
    Clean (word ++ [(command, line)]) ↔
      Clean word ∧ ∀ fault, ¬Offends word command fault := by
  constructor
  · intro clean
    refine ⟨?_, clean word command line [] rfl⟩
    rintro before other otherLine after rfl
    exact clean before other otherLine (after ++ [(command, line)]) (by simp)
  · rintro ⟨clean, last⟩ before other otherLine after split
    rcases List.eq_nil_or_concat after with rfl | ⟨middle, final, rfl⟩
    · obtain ⟨rfl, same⟩ := List.append_inj' split rfl
      cases same
      exact last
    · rw [List.concat_eq_append, ← List.cons_append, ← List.append_assoc]
          at split
      obtain ⟨earlier, _⟩ := List.append_inj' split rfl
      exact clean before other otherLine middle earlier

namespace Assembly

/-- What an assembly knows of the word that has been added to it. -/
structure Tracks (word : List (Command × Nat)) (assembly : Assembly) :
    Prop where
  opened : assembly.headings = openHeaders word
  defined : ∀ name, assembly.defines name = true ↔ name ∈ definedNames word

theorem tracks_empty : Tracks [] empty :=
  ⟨rfl,
    fun name =>
      ⟨fun defined => absurd defined (not_defines_empty name), by rintro ⟨⟩⟩⟩

theorem headings_attach (assembly : Assembly) (node : Node) :
    (assembly.attach node).headings = assembly.headings := by
  obtain ⟨_ | ⟨block, outer⟩, items, procedures⟩ := assembly <;> rfl

theorem procedures_attach (assembly : Assembly) (node : Node) :
    (assembly.attach node).procedures = assembly.procedures := by
  obtain ⟨_ | ⟨block, outer⟩, items, procedures⟩ := assembly <;> rfl

theorem defines_attach (assembly : Assembly) (node : Node) (name : String) :
    (assembly.attach node).defines name = true ↔
      assembly.defines name = true := by
  rw [defines_iff, defines_iff, headings_attach, procedures_attach]

theorem mem_names_insert {procedure : Procedure} {procedures : List Procedure}
    {name : String} :
    name ∈ (procedure.insert procedures).map Procedure.name ↔
      name = procedure.name ∨ name ∈ procedures.map Procedure.name := by
  induction procedures with
  | nil => simp [Procedure.insert]
  | cons first rest ih =>
      unfold Procedure.insert
      split
      · next same => simp [same]
      · simp only [List.map_cons, List.mem_cons, ih]
        exact or_left_comm

theorem headings_closeBlock (assembly : Assembly) (block : OpenBlock) :
    (assembly.closeBlock block).headings = assembly.headings := by
  unfold closeBlock
  dsimp only
  split
  · rfl
  · exact headings_attach _ _

/-- Closing a block keeps its name, if it is a definition, among the defined
ones. -/
theorem defines_closeBlock (assembly : Assembly) (block : OpenBlock)
    (name : String) :
    (assembly.closeBlock block).defines name = true ↔
      assembly.defines name = true ∨
      block.header.procedureName? = some name := by
  rw [Command.procedureName?_eq_some_iff]
  unfold closeBlock
  dsimp only
  split
  · next own header =>
      rw [defines_iff, defines_iff, mem_names_insert, header]
      simp only [Command.define.injEq]
      tauto
  · next notDefine =>
      rw [defines_attach]
      exact ⟨.inl, fun either => either.resolve_right (notDefine name)⟩

variable {word : List (Command × Nat)} {assembly next : Assembly}
    {command : Command} {line : Nat}

theorem Tracks.insideProcedure (tracks : Tracks word assembly) :
    assembly.insideProcedure = insideDefinition (openHeaders word) := by
  rw [insideProcedure_eq, tracks.opened]

/-- A command that is refused offends. -/
theorem Tracks.offends (tracks : Tracks word assembly) {fault : BlockFault}
    (refused : assembly.add command line = .error fault) :
    Offends word command fault := by
  unfold add at refused
  split at refused
  · split at refused
    · next unclosed =>
        cases refused
        exact .strayEnd
          (by rw [← tracks.opened, headings, unclosed, List.map_nil])
    · cases refused
  · split at refused
    · next name defined =>
        cases refused
        exact .duplicateProcedure ((tracks.defined name).mp defined)
    · cases refused
  · split at refused
    · cases refused
    · next outside =>
        cases refused
        rw [tracks.insideProcedure, Bool.not_eq_true] at outside
        exact .strayReturn outside
  · split at refused <;> cases refused

theorem Tracks.openBlock (tracks : Tracks word assembly)
    (opens : command.opensBlock = true) :
    Tracks (word ++ [(command, line)]) (assembly.openBlock command line) := by
  constructor
  · rw [openHeaders_append_singleton,
      if_neg (Command.ne_endBlock_of_opens opens), if_pos opens,
      ← tracks.opened]
    rfl
  · intro name
    rw [defines_openBlock, tracks.defined]
    simp [eq_comm]

theorem Tracks.attach_leaf (tracks : Tracks word assembly)
    (closed : command.opensBlock = false) (notEnd : command ≠ .endBlock) :
    Tracks (word ++ [(command, line)])
      (assembly.attach (.leaf command line)) := by
  constructor
  · rw [openHeaders_append_singleton, if_neg notEnd, closed, headings_attach,
      tracks.opened]
    rfl
  · intro name
    rw [defines_attach, tracks.defined]
    simp [Command.procedureName?_of_closed closed]

theorem Tracks.closeBlock (tracks : Tracks word assembly) {block : OpenBlock}
    {outer : List OpenBlock} (unclosed : assembly.unclosed = block :: outer) :
    Tracks (word ++ [(.endBlock, line)])
      (closeBlock block { assembly with unclosed := outer }) := by
  constructor
  · rw [headings_closeBlock, openHeaders_append_singleton, if_pos rfl,
      ← tracks.opened]
    simp [headings, unclosed]
  · intro name
    have before := tracks.defined name
    rw [defines_iff, headings, unclosed, List.map_cons, List.map_cons,
      List.mem_cons] at before
    have same :
        definedNames (word ++ [(.endBlock, line)]) = definedNames word := by
      simp [Command.procedureName?]
    rw [defines_closeBlock, defines_iff, Command.procedureName?_eq_some_iff,
      same, ← before, eq_comm (a := block.header)]
    tauto

/-- A command that is added does not offend, and the assembly goes on tracking
the word. -/
theorem Tracks.add (tracks : Tracks word assembly)
    (added : assembly.add command line = .ok next) :
    Tracks (word ++ [(command, line)]) next ∧ ∀ fault,
    ¬Offends word command fault := by
  unfold Assembly.add at added
  split at added
  · split at added
    · cases added
    · next block outer unclosed =>
        cases added
        refine ⟨tracks.closeBlock unclosed, ?_⟩
        rintro _ ⟨closed⟩
        rw [← tracks.opened, headings, unclosed] at closed
        cases closed
  · next name =>
      split at added
      · cases added
      · next missing =>
          cases added
          refine ⟨tracks.openBlock rfl, ?_⟩
          rintro _ (_ | ⟨defined⟩)
          exact missing ((tracks.defined name).mpr defined)
  · split at added
    · next inside =>
        cases added
        refine ⟨tracks.attach_leaf rfl (by rintro ⟨⟩), ?_⟩
        rintro _ (_ | _ | ⟨outside⟩)
        rw [tracks.insideProcedure, outside] at inside
        cases inside
    · cases added
  · next notEnd notDefine notReturn =>
      have fits : ∀ fault, ¬Offends word command fault := by
        rintro _ (_ | ⟨_⟩ | _)
        · exact notEnd rfl
        · exact notDefine _ rfl
        · exact notReturn rfl
      split at added
      · next opens =>
          cases added
          exact ⟨tracks.openBlock opens, fits⟩
      · next closed =>
          cases added
          exact ⟨tracks.attach_leaf (by simpa using closed) notEnd, fits⟩

/-- Adding a word either succeeds, and then the word is clean, or stops at the
first command that offends. -/
theorem Tracks.addAll (tracks : Tracks word assembly) (clean : Clean word)
    (rest : List (Command × Nat)) :
    (∃ final, assembly.addAll rest = (final, none) ∧
      Tracks (word ++ rest) final ∧
      Clean (word ++ rest)) ∨
    ∃ before command line after final fault,
      rest = before ++ (command, line) :: after ∧
      assembly.addAll rest = (final, some fault) ∧ assembly.addAll before =
        (final, none) ∧
      Clean (word ++ before) ∧ Offends (word ++ before) command fault := by
  induction rest generalizing word assembly with
  | nil =>
      exact .inl ⟨assembly, rfl, by simpa using tracks, by simpa using clean⟩
  | cons entry rest ih =>
      obtain ⟨command, line⟩ := entry
      cases outcome : assembly.add command line with
      | error fault =>
          refine .inr ⟨[], command, line, rest, assembly, fault, rfl,
            ?_, rfl, ?_, ?_⟩
          · simp [Assembly.addAll, outcome]
          · simpa using clean
          · simpa using tracks.offends outcome
      | ok next =>
          obtain ⟨tracksNext, fits⟩ := tracks.add outcome
          have cleanNext : Clean (word ++ [(command, line)]) :=
            clean_append_singleton.mpr ⟨clean, fits⟩
          have step (more : List (Command × Nat)) :
              assembly.addAll ((command, line) :: more) = next.addAll more := by
            simp [Assembly.addAll, outcome]
          rcases ih tracksNext cleanNext with ⟨final, added, reached⟩ |
            ⟨before, other, otherLine, after, final, fault, rfl, refused,
              added, offence⟩
          · exact .inl ⟨final, by rw [step, added], by simpa using reached⟩
          · refine .inr ⟨(command, line) :: before, other, otherLine, after,
              final, fault, rfl, ?_⟩
            exact ⟨by rw [step, refused], by rw [step,
              added], by simpa using offence⟩

end Assembly

/-! ### Clean words -/

/-- A word that opens blocks without closing them, and consists of forests in
between. -/
inductive Layered : List (Command × Nat) → List (Command × Nat) → Prop where
  | closed {word : List (Command × Nat)} {forest : List Node}
      (derives : Derives word forest)
      (enclosed : ReturnsEnclosedList false forest) : Layered word []
  | opened {outer inner opened : List (Command × Nat)} {header : Command}
      {line : Nat}
      {body : List Node} (around : Layered outer opened)
      (opens : header.opensBlock = true)
      (derives : Derives inner body)
      (enclosed :
        ReturnsEnclosedList (insideDefinition ((header, line) :: opened))
          body) :
      Layered (outer ++ (header, line) :: inner) ((header, line) :: opened)

theorem Layered.append {word more opened : List (Command × Nat)}
    {forest : List Node} (layered : Layered word opened)
    (derives : Derives more forest)
    (enclosed : ReturnsEnclosedList (insideDefinition opened) forest) :
    Layered (word ++ more) opened := by
  cases layered with
  | closed before enclosedBefore =>
      exact .closed (before.append derives)
        (Node.returnsEnclosedList_append.mpr ⟨enclosedBefore, enclosed⟩)
  | opened around opens inside enclosedInside =>
      rw [List.append_assoc, List.cons_append]
      exact .opened around opens (inside.append derives)
        (Node.returnsEnclosedList_append.mpr ⟨enclosedInside, enclosed⟩)

/-- The `end` of a block makes a node of it. -/
theorem Layered.close {word opened : List (Command × Nat)}
    {heading : Command × Nat} (layered : Layered word (heading :: opened))
    (endLine : Nat) :
    Layered (word ++ [(.endBlock, endLine)]) opened := by
  cases layered with
  | @opened outer inner _ header line body around opens derives enclosed =>
      rw [List.append_assoc, List.cons_append]
      refine around.append (.block opens derives .nil) ⟨?_, trivial⟩
      rwa [insideDefinition_cons] at enclosed

theorem layered_of_clean {word : List (Command × Nat)} (clean : Clean word) :
    Layered word (openHeaders word) := by
  induction word using List.reverseRecOn with
  | nil => exact .closed .nil trivial
  | append_singleton word entry ih =>
      obtain ⟨command, line⟩ := entry
      obtain ⟨cleanBefore, fits⟩ := clean_append_singleton.mp clean
      have layered := ih cleanBefore
      rw [openHeaders_append_singleton]
      by_cases isEnd : command = .endBlock
      · subst isEnd
        rw [if_pos rfl]
        cases headers : openHeaders word with
        | nil => exact absurd (.strayEnd headers) (fits _)
        | cons heading outer =>
            rw [headers] at layered
            exact layered.close line
      · rw [if_neg isEnd]
        split
        · next opens => exact .opened layered opens .nil trivial
        · next closed =>
            refine layered.append (.leaf (by simpa using closed) isEnd .nil)
              ⟨?_, trivial⟩
            rintro rfl
            by_contra outside
            exact fits _ (.strayReturn (Bool.not_eq_true _ ▸ outside))

theorem nodup_definedNames_of_clean {word : List (Command × Nat)}
    (clean : Clean word) :
    (definedNames word).Nodup := by
  induction word using List.reverseRecOn with
  | nil => exact List.nodup_nil
  | append_singleton word entry ih =>
      obtain ⟨command, line⟩ := entry
      obtain ⟨cleanBefore, fits⟩ := clean_append_singleton.mp clean
      have distinct := ih cleanBefore
      rw [definedNames_append, definedNames_cons, definedNames_nil,
        List.append_nil]
      cases defines : command.procedureName? with
      | none => simpa using distinct
      | some name =>
          cases Command.procedureName?_eq_some_iff.mp defines
          refine List.nodup_append.mpr ⟨distinct, by simp, ?_⟩
          rintro other member _ last rfl
          rw [Option.toList_some, List.mem_singleton] at last
          exact fits _ (.duplicateProcedure (last ▸ member))

/-- A word of the grammar: its commands make up a forest, every `ret` is inside
a definition, and no two definitions have the same name. -/
def WellFormed (word : List (Command × Nat)) (forest : List Node) : Prop :=
  Derives word forest ∧ ReturnsEnclosedList false forest ∧
  (definedNames word).Nodup

theorem wellFormed_of_clean {word : List (Command × Nat)} (clean : Clean word)
    (closed : openHeaders word = []) : ∃ forest, WellFormed word forest := by
  have layered := layered_of_clean clean
  rw [closed] at layered
  cases layered with
  | closed derives enclosed =>
      exact ⟨_, derives, enclosed, nodup_definedNames_of_clean clean⟩

namespace Assembly

theorem addAll_of_wellFormed {word : List (Command × Nat)} {forest : List Node}
    (wellFormed : WellFormed word forest) :
    empty.addAll word =
      (⟨[], (withoutDefinitionsList forest).reverse, definitionsList forest⟩,
        none) := by
  obtain ⟨derives, enclosed, distinct⟩ := wellFormed
  have added : empty.addAll word = (empty.extend forest, none) :=
    addAll_of_derives derives enclosed distinct fun name _ =>
      not_defines_empty name
  simpa [extend, empty] using added

theorem finish_eq_ok_iff {assembly : Assembly} {program : Program} :
    assembly.finish = .ok program ↔ assembly.unclosed = [] ∧
    program = assembly.completed := by
  unfold finish
  split
  · next unclosed => simp [unclosed, eq_comm]
  · next unclosed => simp [unclosed]

/-- Programs are assembled as the grammar of blocks says.  All commands are
added and the program can be finished if they are a word of the grammar; the
program is then the only forest they make up, with the definitions taken out of
it.  Otherwise the first command that offends is refused and changes nothing, or
the innermost open block is reported at the end. -/
theorem agrees_with_grammar (word : List (Command × Nat)) :
    (∀ program,
      (∃ assembly, empty.addAll word = (assembly, none) ∧
        assembly.finish = .ok program) ↔
        ∃ forest, WellFormed word forest ∧
          program = ⟨withoutDefinitionsList forest, definitionsList forest⟩) ∧
    (∀ forest other, Derives word forest → Derives word other →
      forest = other) ∧
    ((¬∃ forest, WellFormed word forest) →
      (∃ before command line after assembly fault,
        word = before ++ (command, line) :: after ∧
        Clean before ∧ Offends before command fault ∧
        empty.addAll before = (assembly, none) ∧
        empty.addAll word = (assembly, some fault)) ∨
      ∃ header line outer assembly,
        Clean word ∧ openHeaders word = (header, line) :: outer ∧
        empty.addAll word = (assembly, none) ∧
        assembly.finish =
          .error
            (Fault.at (.block (.unclosed (outer.length + 1))) line
              header.describe)) := by
  have outcome := tracks_empty.addAll clean_nil word
  simp only [List.nil_append] at outcome
  refine ⟨fun program => ⟨?_, ?_⟩, fun _ _ first second => first.unique second,
    ?_⟩
  · rintro ⟨assembly, added, finished⟩
    obtain ⟨closed, rfl⟩ := finish_eq_ok_iff.mp finished
    rcases outcome with ⟨final, same, tracks, clean⟩ |
      ⟨_, _, _, _, _, _, _, refused, _⟩
    · cases added.symm.trans same
      have headers : openHeaders word = [] := by
        rw [← tracks.opened, headings, closed, List.map_nil]
      obtain ⟨forest, wellFormed⟩ := wellFormed_of_clean clean headers
      refine ⟨forest, wellFormed, ?_⟩
      cases added.symm.trans (addAll_of_wellFormed wellFormed)
      simp [completed]
    · cases added.symm.trans refused
  · rintro ⟨forest, wellFormed, rfl⟩
    exact ⟨_, addAll_of_wellFormed wellFormed,
      finish_eq_ok_iff.mpr ⟨rfl, by simp [completed]⟩⟩
  · intro malformed
    rcases outcome with ⟨final, added, tracks, clean⟩ |
      ⟨before, command, line, after, final, fault, split, refused, added,
        clean, offends⟩
    · cases headers : openHeaders word with
      | nil => exact absurd (wellFormed_of_clean clean headers) malformed
      | cons heading outer =>
          have opened := tracks.opened
          rw [headers] at opened
          obtain ⟨block, blocks, unclosed, rfl, rfl⟩ :=
            List.map_eq_cons_iff.mp opened
          refine .inr ⟨block.header, block.line, _, final, clean,
            rfl, added, ?_⟩
          simp [finish, unclosed, depth]
    · exact .inl ⟨before, command, line, after, final, fault, split, clean,
        offends, added, refused⟩

/-- A procedure that is closed twice is not a word of the grammar, and its
second `end` is refused. -/
theorem agrees_with_grammar_second_end :
    let word :=
      [(Command.define "p", 1), (.ret, 2), (.endBlock, 3), (.endBlock, 4)]
    (¬∃ forest, WellFormed word forest) ∧
    ∃ before command line after assembly fault,
      word = before ++ (command, line) :: after ∧
      Clean before ∧ Offends before command fault ∧
      empty.addAll before = (assembly, none) ∧
      empty.addAll word = (assembly, some fault) := by
  intro word
  have refused : (empty.addAll word).2 = some .strayEnd := rfl
  have malformed : ¬∃ forest, WellFormed word forest := by
    rintro ⟨forest, wellFormed⟩
    rw [addAll_of_wellFormed wellFormed] at refused
    cases refused
  refine ⟨malformed, ?_⟩
  rcases (agrees_with_grammar word).2.2 malformed with stopped |
    ⟨_, _, _, _, _, _, added, _⟩
  · exact stopped
  · rw [added] at refused
    cases refused

end Assembly

end PenScript
