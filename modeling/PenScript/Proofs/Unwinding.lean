import PenScript.Proofs.Returns
import PenScript.Proofs.Termination

/-!
# Returning from calls

A `ret` ends everything up to the call of the procedure, and nothing beyond:
what stands behind it in its block is never carried out, and the caller goes on
behind the call.  The calls that are active at a moment of a run are those of
its callers.  There are never more of them than the limit allows, and every
block leaves as many as it has found.
-/

namespace PenScript

open Stateful

/-! ### Nodes behind a return -/

/-- The nodes are the same but for those that stand behind a `ret` in its
block. -/
inductive Node.SameLive : List Node → List Node → Prop where
  | nil : SameLive [] []
  | behind {node : Node} (returns : node.command = .ret)
      (rest other : List Node) :
      SameLive (node :: rest) (node :: other)
  | block (header : Command) (line : Nat) {body body' rest rest' : List Node}
      (inBody : SameLive body body') (inRest : SameLive rest rest') :
      SameLive (.block header line body :: rest)
        (.block header line body' :: rest')
  | node (node : Node) {rest rest' : List Node} (inRest : SameLive rest rest') :
      SameLive (node :: rest) (node :: rest')

/-- Two procedures of one name that differ only behind a `ret`. -/
structure Procedure.SameLive (procedure other : Procedure) : Prop where
  name : other.name = procedure.name
  body : Node.SameLive procedure.body other.body

theorem Procedure.find?_cons (name : String) (procedure : Procedure)
    (rest : List Procedure) :
    find? name (procedure :: rest) =
      if procedure.name = name then some procedure else find? name rest := by
  rw [find?, List.find?_cons]
  by_cases here : procedure.name = name
  · simp [here]
  · simp [here, find?]

theorem Procedure.find?_of_sameLive {procedures others : List Procedure}
    (same : List.Forall₂ SameLive procedures others) (name : String) :
    find? name procedures = none ∧ find? name others = none ∨
      ∃ procedure other, find? name procedures = some procedure ∧
        find? name others = some other ∧ procedure.SameLive other := by
  induction same with
  | nil => exact .inl ⟨rfl, rfl⟩
  | @cons procedure other rest rest' first _ ih =>
      rw [find?_cons, find?_cons, first.name]
      split
      · exact .inr ⟨procedure, other, rfl, rfl, first⟩
      · exact ih

namespace Execution

theorem runNode_of_ret {node : Node} (returns : node.command = .ret)
    (limits : Limits) (call : String → Nat → Execution Unit) :
    runNode limits call node = pure .ret := by
  cases node with
  | leaf command line =>
      cases returns
      rw [runNode, runLeaf]
  | block header line body =>
      cases returns
      unfold runNode
      rfl

theorem runNode_block_congr {limits : Limits}
    {call : String → Nat → Execution Unit} {body body' : List Node}
    (same : runNodes limits call body' = runNodes limits call body)
    (header : Command) (line : Nat) :
    runNode limits call (.block header line body') =
      runNode limits call (.block header line body) := by
  cases header <;> simp only [runNode, same]

/-- What stands behind a `ret` is never carried out. -/
theorem runNodes_of_sameLive {nodes nodes' : List Node}
    (same : Node.SameLive nodes nodes') (limits : Limits)
    (call : String → Nat → Execution Unit) :
    runNodes limits call nodes' = runNodes limits call nodes := by
  induction same with
  | nil => rfl
  | behind returns rest other =>
      rw [runNodes, runNodes, runNode_of_ret returns, pure_bind, pure_bind]
  | block header line _ _ body rest =>
      rw [runNodes, runNodes, runNode_block_congr body, rest]
  | node node _ rest => rw [runNodes, runNodes, rest]

theorem callProcedure_of_sameLive {procedures procedures' : List Procedure}
    (same : List.Forall₂ Procedure.SameLive procedures procedures')
    (limits : Limits) (remaining : Nat) :
    callProcedure limits procedures' remaining =
      callProcedure limits procedures remaining := by
  induction remaining with
  | zero =>
      funext name line
      rcases Procedure.find?_of_sameLive same name with
        ⟨missing, missing'⟩ | ⟨procedure, procedure', found, found', _⟩
      · rw [callProcedure_of_undefined limits line missing,
          callProcedure_of_undefined limits line missing']
      · rw [callProcedure_zero limits line found,
          callProcedure_zero limits line found']
  | succ remaining ih =>
      funext name line
      rcases Procedure.find?_of_sameLive same name with
        ⟨missing, missing'⟩ | ⟨procedure, procedure', found, found', bodies⟩
      · rw [callProcedure_of_undefined limits line missing,
          callProcedure_of_undefined limits line missing']
      · rw [callProcedure_succ limits line found,
          callProcedure_succ limits line found', ih,
          runNodes_of_sameLive bodies.body]

theorem run_of_sameLive {procedures procedures' : List Procedure}
    {items items' : List Node}
    (sameProcedures : List.Forall₂ Procedure.SameLive procedures procedures')
    (sameItems : Node.SameLive items items') (limits : Limits) :
    run limits procedures' items' = run limits procedures items := by
  rw [run, run, callProcedure_of_sameLive sameProcedures,
    runNodes_of_sameLive sameItems]

/-! ### The calls of a run -/

section Calls

variable {limits : Limits} {procedures : List Procedure}

open State (Steps Reaches leave resume)

theorem Task.move_of_ret {node : Node} (returns : node.command = .ret)
    (depth : Nat) :
    (Task.node node).move limits procedures depth = pure .leave := by
  cases node <;> cases returns <;> rfl

theorem Task.move_of_call {node : Node} {name : String}
    (calls : node.command = .call name) {procedure : Procedure}
    (found : Procedure.find? name procedures = some procedure) (depth : Nat) :
    (Task.node node).move limits procedures depth =
      if depth < limits.depth then pure (.enter (procedure.body.map .node))
      else throw
        (Fault.at (.run (.tooDeep limits.depth name)) node.line
          (Command.call name).describe) := by
  have form : (Task.node node).move limits procedures depth =
      leafMove limits procedures depth (.call name) node.line := by
    cases node <;> cases calls <;> rfl
  rw [form, leafMove, found]

theorem State.steps_of_move {task : Task} {rest : List Task}
    {callers : List (List Task)} {machine : Machine}
    {moved : EStateM.Result Failure Machine Move}
    (moves : task.move limits procedures callers.length machine = moved) :
    Steps limits procedures (.running (task :: rest) callers machine)
      (follow rest callers moved) :=
  congrArg (fun result => some (follow rest callers result)) moves

/-! ### Counting the calls -/

/-- Carries out tasks inside a number of active calls, and tells how they end
and how many calls are active then.  A call counts up when its procedure is
entered, and down when the procedure ends, be it by a failure. -/
inductive Evaluates (limits : Limits) (procedures : List Procedure) :
    Nat → List Task → Machine → EStateM.Result Failure Machine Flow →
    Nat → Prop where
  | done {active : Nat} {machine : Machine} :
      Evaluates limits procedures active [] machine (.ok .next machine) active
  | goOn {active after : Nat} {task : Task} {tasks rest : List Task}
      {before middle : Machine} {outcome : EStateM.Result Failure Machine Flow}
      (moved :
        task.move limits procedures active before = .ok (.goOn tasks) middle)
      (later :
        Evaluates limits procedures active (tasks ++ rest) middle
          outcome after) :
      Evaluates limits procedures active (task :: rest) before outcome after
  | returned {active : Nat} {task : Task} {rest : List Task}
      {before final : Machine}
      (moved : task.move limits procedures active before = .ok .leave final) :
      Evaluates limits procedures active (task :: rest) before
        (.ok .ret final) active
  | failed {active : Nat} {task : Task} {rest : List Task}
      {before final : Machine} {failure : Failure}
      (moved :
        task.move limits procedures active before = .error failure final) :
      Evaluates limits procedures active (task :: rest) before
        (.error failure final) active
  | called {active inner after : Nat} {task : Task} {tasks rest : List Task}
      {before middle between : Machine} {flow : Flow}
      {outcome : EStateM.Result Failure Machine Flow}
      (moved :
        task.move limits procedures active before = .ok (.enter tasks) middle)
      (inside :
        Evaluates limits procedures (active + 1) tasks middle
          (.ok flow between) inner)
      (later :
        Evaluates limits procedures (inner - 1) rest between outcome after) :
      Evaluates limits procedures active (task :: rest) before outcome after
  | failedInside {active inner : Nat} {task : Task} {tasks rest : List Task}
      {before middle final : Machine} {failure : Failure}
      (moved :
        task.move limits procedures active before = .ok (.enter tasks) middle)
      (inside :
        Evaluates limits procedures (active + 1) tasks middle
          (.error failure final) inner) :
      Evaluates limits procedures active (task :: rest) before
        (.error failure final) (inner - 1)

namespace Evaluates

variable {active after : Nat} {tasks : List Task} {before : Machine}
  {outcome : EStateM.Result Failure Machine Flow}

/-- As many calls are active afterwards as before. -/
theorem restores
    (evaluates : Evaluates limits procedures active tasks before outcome after) :
    after = active := by
  induction evaluates with
  | done => rfl
  | goOn _ _ ih => exact ih
  | returned _ => rfl
  | failed _ => rfl
  | called _ _ _ inside later =>
      rw [later, inside]
      rfl
  | failedInside _ _ inside =>
      rw [inside]
      rfl

/-- The course goes on in the caller when a procedure has ended, at its end or
by a return. -/
theorem reaches_caller {state : State} {rest : List Task}
    {callers : List (List Task)} {flow : Flow} {machine : Machine}
    (reached :
      Reaches limits procedures state
        (resume [] (rest :: callers) (.ok flow machine))) :
    Reaches limits procedures state (.running rest callers machine) := by
  cases flow with
  | next => exact reached.tail rfl
  | ret => exact reached

/-- The course of a run leads over the tasks to what is to be done after
them. -/
theorem reaches
    (evaluates : Evaluates limits procedures active tasks before outcome after)
    (callers : List (List Task)) (counted : callers.length = active)
    (rest : List Task) :
    Reaches limits procedures (.running (tasks ++ rest) callers before)
      (resume rest callers outcome) := by
  induction evaluates generalizing callers rest with
  | done => exact .refl
  | goOn moved _ ih =>
      subst counted
      have later := ih callers rfl rest
      rw [List.append_assoc] at later
      exact .head (State.steps_of_move moved) later
  | returned moved =>
      subst counted
      exact .single (State.steps_of_move moved)
  | failed moved =>
      subst counted
      exact .single (State.steps_of_move moved)
  | @called _ _ _ _ _ waiting _ _ _ _ _ moved inside _ ihInside ihLater =>
      subst counted
      have entered := ihInside ((waiting ++ rest) :: callers) rfl []
      rw [List.append_nil] at entered
      have later := ihLater callers (by rw [inside.restores]; rfl) rest
      exact .head (State.steps_of_move moved)
        ((reaches_caller entered).trans later)
  | @failedInside _ _ _ _ waiting _ _ _ _ moved _ ihInside =>
      subst counted
      have entered := ihInside ((waiting ++ rest) :: callers) rfl []
      rw [List.append_nil] at entered
      exact .head (State.steps_of_move moved) entered

end Evaluates

/-- Whatever remains to be done in a procedure can be carried out, since no
course is endless.  The tasks of a caller come later in the course than the
call. -/
theorem exists_evaluates (tasks : List Task) (callers : List (List Task))
    (machine : Machine) :
    ∃ outcome,
      Evaluates limits procedures callers.length tasks machine outcome
        callers.length := by
  generalize same : State.running tasks callers machine = state
  induction state using
    (State.wellFounded_steps limits procedures).transGen.induction
    generalizing tasks callers machine with
  | _ state ih =>
      subst same
      cases tasks with
      | nil => exact ⟨_, .done⟩
      | cons task rest =>
          cases moved : task.move limits procedures callers.length machine with
          | error failure final => exact ⟨_, .failed moved⟩
          | ok move middle =>
              have steps :
                  Steps limits procedures
                    (.running (task :: rest) callers machine)
                  (State.follow rest callers (.ok move middle)) :=
                    State.steps_of_move moved
              cases move with
              | leave => exact ⟨_, .returned moved⟩
              | goOn tasks =>
                  obtain ⟨outcome, later⟩ :=
                    ih _ (.single steps) _ callers middle rfl
                  exact ⟨outcome, .goOn moved later⟩
              | enter tasks =>
                  obtain ⟨outcome, inside⟩ :=
                    ih _ (.single steps) _ (rest :: callers) middle rfl
                  cases outcome with
                  | error failure final => exact ⟨_, .failedInside moved inside⟩
                  | ok flow between =>
                      have entered := inside.reaches (rest :: callers) rfl []
                      rw [List.append_nil] at entered
                      have back := Evaluates.reaches_caller entered
                      have later : Relation.TransGen (Steps limits procedures)
                          (.running (task :: rest) callers machine)
                          (.running rest callers between) :=
                        .head' steps back
                      obtain ⟨outcome, goesOn⟩ :=
                        ih _ (Relation.transGen_swap.mpr later) rest
                          callers between rfl
                      exact ⟨outcome, .called moved inside goesOn⟩

/-- What calls and returns do at a moment of a run. -/
structure State.CallsInOrder (limits : Limits) (procedures : List Procedure)
    (state : State) :
    Prop where
  bounded : state.activeCalls ≤ limits.depth
  /-- A `ret` leaves one call, whatever remains to be done in its procedure. -/
  returns : ∀ {node rest callers machine},
    state = .running (.node node :: rest) callers machine →
    node.command = .ret → Steps limits procedures state (leave callers machine)
  /-- A call of a procedure fails by itself just if as many calls are active as
  may be. -/
  refuses : ∀ {node rest callers machine name procedure},
    state = .running (.node node :: rest) callers machine →
    node.command = .call name →
      Procedure.find? name procedures = some procedure →
        ((∃ failure : Failure, failure.code.text = "R002" ∧
          Steps limits procedures state (.ended (.error failure machine))) ↔
            callers.length = limits.depth)
  /-- Any other call enters the procedure. -/
  enters : ∀ {node rest callers machine name procedure},
    state = .running (.node node :: rest) callers machine →
    node.command = .call name →
      Procedure.find? name procedures = some procedure →
      callers.length < limits.depth →
        Steps limits procedures state
          (.running (procedure.body.map .node) (rest :: callers) machine)
  /-- The caller goes on behind the call, be it that the procedure has
  returned. -/
  resumes : ∀ {node rest callers machine name procedure flow final},
    state = .running (.node node :: rest) callers machine →
    node.command = .call name →
      Procedure.find? name procedures = some procedure →
      callers.length < limits.depth →
        runNodes limits
          (callProcedure limits procedures
            (limits.depth - (callers.length + 1)))
            procedure.body machine = .ok flow final →
          Reaches limits procedures state (.running rest callers final)

theorem State.steps_into {node : Node} {name : String}
    (calls : node.command = .call name) {procedure : Procedure}
    (found : Procedure.find? name procedures = some procedure)
    {callers : List (List Task)} (room : callers.length < limits.depth)
    (rest : List Task) (machine : Machine) :
    Steps limits procedures (.running (.node node :: rest) callers machine)
      (.running (procedure.body.map .node) (rest :: callers) machine) := by
  have moved : (Task.node node).move limits procedures callers.length =
      pure (.enter (procedure.body.map .node)) := by
    rw [Task.move_of_call calls found, if_pos room]
  exact steps_of_move (congrFun moved machine)

theorem State.callsInOrder {state : State}
    (bounded : state.activeCalls ≤ limits.depth) :
    state.CallsInOrder limits procedures := by
  constructor
  · exact bounded
  · rintro node rest callers machine rfl returns
    have moved :
        (Task.node node).move limits procedures callers.length = pure .leave :=
      Task.move_of_ret returns callers.length
    exact steps_of_move (congrFun moved machine)
  · rintro node rest callers machine name procedure rfl calls found
    constructor
    · rintro ⟨failure, _, steps⟩
      by_contra different
      have room : callers.length < limits.depth :=
        Nat.lt_of_le_of_ne bounded different
      cases steps.symm.trans (steps_into calls found room rest machine)
    · intro full
      have moved :
          (Task.node node).move limits procedures callers.length = throw
          (Fault.at (.run (.tooDeep limits.depth name)) node.line
            (Command.call name).describe) := by
        rw [Task.move_of_call calls found, if_neg (by omega)]
      exact ⟨_, rfl, steps_of_move (congrFun moved machine)⟩
  · rintro node rest callers machine name procedure rfl calls found room
    exact steps_into calls found room rest machine
  · rintro node rest callers machine name procedure flow final rfl calls
      found room outcome
    have total :
        (rest :: callers).length + (limits.depth - (callers.length + 1)) =
        limits.depth := by
      rw [List.length_cons]
      omega
    have inside : CallsRealized limits procedures (rest :: callers)
        (callProcedure limits procedures
          (limits.depth - (callers.length + 1))) :=
      callsRealized total
    have reached := realizes_nodes inside procedure.body [] machine
    rw [List.append_nil, outcome] at reached
    exact Evaluates.reaches_caller
      (.head (steps_into calls found room rest machine) reached)

end Calls

/-- A call never returns to behind its caller: the run goes on at the next
node. -/
theorem goesOn_of_call {node : Node} {name : String}
    (calls : node.command = .call name) (limits : Limits)
    (call : String → Nat → Execution Unit) :
    GoesOn (runNode limits call node) := by
  have stays : node.command ≠ .ret := by
    rw [calls]
    exact Command.noConfusion
  cases node with
  | leaf command line =>
      rw [runNode]
      exact GoesOn.runLeaf stays line
  | block header line body =>
      cases calls
      unfold runNode
      exact GoesOn.runLeaf stays line

open State (Steps Reaches resume)

/-- A `ret` unwinds one call, from wherever it stands.  What follows it in its
block may be replaced by anything; a call never passes the return on, and the
caller goes on with what comes next, be it a node or a round of a loop.  At each
moment of a run there are no more active calls than allowed, and a call of a
defined procedure fails by itself just where there are as many.  As many calls
are active after a block as before it, whether it has finished, returned or
failed. -/
theorem return_unwinds_one_call (limits : Limits) (procedures : List Procedure)
    (items : List Node) (machine : Machine) :
    (∀ procedures' items',
      List.Forall₂ Procedure.SameLive procedures procedures' →
      Node.SameLive items items' →
        run limits procedures' items' machine =
          run limits procedures items machine) ∧
    (∀ node name remaining, node.command = .call name →
      GoesOn
        (runNode limits (callProcedure limits procedures remaining) node)) ∧
    (∀ state, Reaches limits procedures (.start items machine) state →
      state.CallsInOrder limits procedures ∧
        Reaches limits procedures state
          (.ended (run limits procedures items machine))) ∧
    (∀ (nodes : List Node) (rest : List Task) (callers : List (List Task))
      (before : Machine),
      ∃ outcome,
        Evaluates limits procedures callers.length (nodes.map .node)
          before outcome callers.length ∧
        Reaches limits procedures
          (.running (nodes.map .node ++ rest) callers before)
          (resume rest callers outcome)) ∧
    ∀ (active after : Nat) (nodes : List Node) (before : Machine)
      (outcome : EStateM.Result Failure Machine Flow),
      Evaluates limits procedures active (nodes.map .node) before
        outcome after →
        after = active := by
  refine ⟨?_, ?_, ?_, ?_, ?_⟩
  · intro procedures' items' sameProcedures sameItems
    rw [run_of_sameLive sameProcedures sameItems]
  · intro node name remaining calls
    exact goesOn_of_call calls limits _
  · intro state reached
    have bounded : state.activeCalls ≤ limits.depth :=
      reached.activeCalls_le (Nat.zero_le _)
    exact ⟨State.callsInOrder bounded,
      (reaches_run limits procedures items machine).ends reached⟩
  · intro nodes rest callers before
    obtain ⟨outcome, evaluates⟩ :=
      exists_evaluates (nodes.map .node) callers before
    exact ⟨outcome, evaluates, evaluates.reaches callers rfl rest⟩
  · intro active after nodes before outcome evaluates
    exact evaluates.restores

/-- A procedure that returns from inside a branch, and is called in each round
of a loop.  The nodes behind the `ret` give way to another one. -/
theorem return_unwinds_one_call_in_loop :
    let procedure (behind : List Node) : Procedure :=
      ⟨"p", 1,
        [.block (.ifTrue (.literal (.bool true))) 2 (.leaf .ret 3 :: behind),
        .leaf .resetPen 6]⟩
    let items : List Node :=
      [.block (.forRange "i" (.literal (.int 1)) (.literal (.int 2)) none) 8
        [.leaf (.call "p") 9, .leaf .dot 10]]
    let written := [procedure [.leaf .clear 4]]
    let replaced := [procedure [.leaf (.call "p") 4, .leaf .dot 5]]
    List.Forall₂ Procedure.SameLive written replaced ∧
    Node.SameLive items items ∧
    (finalState (run ⟨0, 1⟩ written items ⟨#[], .empty⟩)).canvas =
      #[.dot, .dot] ∧
    run ⟨0, 1⟩ replaced items ⟨#[], .empty⟩ =
      run ⟨0, 1⟩ written items ⟨#[], .empty⟩ := by
  intro procedure items written replaced
  have sameProcedures : List.Forall₂ Procedure.SameLive written replaced :=
    .cons ⟨rfl, .block _ _ (.behind rfl _ _) (.node _ .nil)⟩ .nil
  have sameItems : Node.SameLive items items := .node _ .nil
  have drawn : (finalState (run ⟨0, 1⟩ written items ⟨#[], .empty⟩)).canvas =
      #[.dot, .dot] := by decide +kernel
  exact ⟨sameProcedures, sameItems, drawn,
    (return_unwinds_one_call ⟨0, 1⟩ written items _).1 replaced items
      sameProcedures sameItems⟩

end Execution

end PenScript
