import Mathlib.Data.Multiset.DershowitzManna
import Mathlib.Data.Prod.Lex
import PenScript.Proofs.Counters

/-!
# Every run ends

A task weighs what remains for it of three things: the calls allowed inside each
other, the nodes in it, and the rounds of its loop.  A step takes one task away
and puts finitely many lighter ones in its place, so no course goes on for ever.
The cap on rounds has to be one that the count of a loop can pass.
-/

namespace PenScript

mutual

/-- The size of a node.  A block is larger than its body and the loop around
it. -/
def Node.size : Node → Nat
  | .leaf _ _ => 1
  | .block _ _ body => Node.sizeList body + 2

/-- List counterpart of `Node.size`. -/
def Node.sizeList : List Node → Nat
  | [] => 0
  | node :: rest => node.size + Node.sizeList rest

end

theorem Node.size_le_sizeList {nodes : List Node} {node : Node}
    (member : node ∈ nodes) :
    node.size ≤ Node.sizeList nodes := by
  induction nodes with
  | nil => cases member
  | cons first rest ih =>
      rw [Node.sizeList]
      rcases List.mem_cons.mp member with rfl | later
      · omega
      · have := ih later
        omega

namespace Execution

/-- Calls, nodes and rounds that remain, in the order of their importance. -/
abbrev Weight := Nat ×ₗ Nat ×ₗ Nat

def weight (calls nodes rounds : Nat) : Weight :=
  toLex (calls, toLex (nodes, rounds))

theorem weight_lt_iff {calls nodes rounds calls' nodes' rounds' : Nat} :
    weight calls nodes rounds < weight calls' nodes' rounds' ↔
      calls < calls' ∨
      calls = calls' ∧
      (nodes < nodes' ∨ nodes = nodes' ∧ rounds < rounds') := by
  simp [weight, Prod.Lex.toLex_lt_toLex]

/-- The weight of a task where the given number of calls remain. -/
def Task.weight (limits : Limits) (calls : Nat) : Task → Weight
  | .node item => Execution.weight calls item.size 0
  | .repeating _ _ body rounds =>
      Execution.weight calls (Node.sizeList body + 1)
        (limits.iterations - rounds)
  | .counting _ range body value =>
      Execution.weight calls (Node.sizeList body + 1) (range.remaining value)

theorem Task.weight_nodes_lt {limits : Limits} {calls size rounds : Nat}
    {nodes : List Node} (smaller : Node.sizeList nodes < size) :
    ∀ task ∈ nodes.map Task.node,
      task.weight limits calls < Execution.weight calls size rounds := by
  intro task member
  obtain ⟨node, inside, rfl⟩ := List.mem_map.mp member
  have le := Node.size_le_sizeList inside
  exact weight_lt_iff.mpr (.inr ⟨rfl, .inl (by omega)⟩)

/-- Tasks that take the place of another one in the same procedure are
lighter. -/
theorem Task.Allows.lighter {limits : Limits} {procedures : List Procedure}
    {depth : Nat} {task : Task} {tasks : List Task}
    (allows : task.Allows limits procedures depth (.goOn tasks)) (calls : Nat) :
    ∀ later ∈ tasks, later.weight limits calls < task.weight limits calls := by
  cases allows with
  | done =>
      intro later member
      cases member
  | body => exact weight_nodes_lt (by rw [Node.size]; omega)
  | loop =>
      intro later member
      rw [List.mem_singleton.mp member]
      exact weight_lt_iff.mpr (.inr ⟨rfl, .inl (by rw [Node.size]; omega)⟩)
  | count range =>
      intro later member
      rw [List.mem_singleton.mp member]
      exact weight_lt_iff.mpr (.inr ⟨rfl, .inl (by rw [Node.size]; omega)⟩)
  | loopOn room =>
      refine List.forall_mem_append.mpr
        ⟨weight_nodes_lt (Nat.lt_succ_self _), ?_⟩
      intro later member
      rw [List.mem_singleton.mp member]
      exact weight_lt_iff.mpr (.inr ⟨rfl, .inr ⟨rfl, by omega⟩⟩)
  | @countOn counter range body value covered =>
      refine List.forall_mem_append.mpr
        ⟨weight_nodes_lt (Nat.lt_succ_self _), ?_⟩
      intro later member
      unfold nextRound at member
      split at member
      · next next fits =>
          rw [List.mem_singleton.mp member]
          have fewer := Range.remaining_next covered
          rw [← int64?_eq_some_iff.mp fits] at fewer
          exact weight_lt_iff.mpr (.inr ⟨rfl, .inr ⟨rfl, fewer⟩⟩)
      · cases member

/-! ### Courses -/

/-- The weights of the tasks in one procedure, and a weight for the procedure
itself. -/
def activation (limits : Limits) (calls : Nat) (tasks : List Task) :
    Multiset Weight :=
  {weight calls 0 0} + (tasks.map (Task.weight limits calls) : List Weight)

/-- The weights of all procedures that have not returned.  Each call takes one
from those that remain. -/
def waiting (limits : Limits) : List (List Task) → Multiset Weight
  | [] => 0
  | tasks :: callers =>
      waiting limits callers + activation limits (limits.depth - callers.length)
        tasks

namespace State

def weights (limits : Limits) : State → Multiset Weight
  | .running tasks callers _ => waiting limits (tasks :: callers)
  | .ended _ => 0

theorem weights_leave (limits : Limits) (callers : List (List Task))
    (machine : Machine) :
    (leave callers machine).weights limits = waiting limits callers := by
  cases callers <;> rfl

/-- A state is lighter than another one from which it differs by a task that has
been replaced. -/
def Lighter (limits : Limits) (after before : State) : Prop :=
  (after.weights limits).IsDershowitzMannaLT (before.weights limits)

theorem lighter_of_lost {kept lost : Multiset Weight} (some : lost ≠ 0) :
    kept.IsDershowitzMannaLT (kept + lost) :=
  ⟨kept, 0, lost, some, (add_zero kept).symm, rfl, by simp⟩

theorem lighter_of_replaced {kept gained : Multiset Weight} {lost : Weight}
    (smaller : ∀ one ∈ gained, one < lost) :
    (kept + gained).IsDershowitzMannaLT (kept + {lost}) :=
  ⟨kept, gained, {lost}, by simp, rfl, rfl, by simpa using smaller⟩

theorem activation_append (limits : Limits) (calls : Nat)
    (tasks rest : List Task) :
    activation limits calls (tasks ++ rest) =
      activation limits calls rest + (tasks.map (Task.weight limits calls) :
        List Weight) := by
  rw [activation, activation, List.map_append, ← Multiset.coe_add, add_assoc]
  exact congrArg _ (add_comm _ _)

/-- What a procedure that is entered brings is lighter than any task of its
caller. -/
theorem lt_of_mem_activation {limits : Limits} {calls fewer : Nat}
    (entered : fewer < calls) {tasks : List Task} (task : Task) :
    ∀ one ∈ activation limits fewer tasks, one < task.weight limits calls := by
  have below (nodes rounds nodes' rounds' : Nat) :
      weight fewer nodes rounds < weight calls nodes' rounds' :=
        weight_lt_iff.mpr (.inl entered)
  intro one member
  have lighter (nodes rounds : Nat) :
      weight fewer nodes rounds < task.weight limits calls := by
    cases task <;> exact below _ _ _ _
  rcases Multiset.mem_add.mp member with own | inside
  · rw [Multiset.mem_singleton.mp own]
    exact lighter 0 0
  · obtain ⟨other, _, rfl⟩ := List.mem_map.mp (Multiset.mem_coe.mp inside)
    cases other <;> exact lighter _ _

/-- Each step makes what remains lighter. -/
theorem Steps.lighter {limits : Limits} {procedures : List Procedure}
    {before after : State} (steps : Steps limits procedures before after) :
    Lighter limits after before := by
  match before with
  | .ended _ => cases steps
  | .running [] callers machine =>
      cases steps
      unfold Lighter
      rw [weights_leave]
      exact lighter_of_lost (by simp [activation])
  | .running (task :: rest) callers machine =>
      cases steps
      have apart (tasks : List Task) :
          waiting limits ((tasks ++ rest) :: callers) =
            waiting limits (rest :: callers) +
            (tasks.map (Task.weight limits (limits.depth - callers.length)) :
              List Weight) := by
        rw [waiting, waiting, activation_append, add_assoc]
      have first :
          waiting limits ((task :: rest) :: callers) =
            waiting limits (rest :: callers) +
          {task.weight limits (limits.depth - callers.length)} := apart [task]
      unfold Lighter
      cases moved : task.move limits procedures callers.length machine with
      | error failure final =>
          have ended :=
            @lighter_of_lost 0 (waiting limits ((task :: rest) :: callers))
            (by simp [waiting, activation])
          rw [zero_add] at ended
          exact ended
      | ok move final =>
          have allows := allows_of_move moved
          cases move with
          | goOn tasks =>
              have lighter := allows.lighter (limits.depth - callers.length)
              rw [follow, weights, weights, apart tasks, first]
              refine lighter_of_replaced fun one member => ?_
              obtain ⟨later, inside, rfl⟩ :=
                List.mem_map.mp (Multiset.mem_coe.mp member)
              exact lighter later inside
          | enter tasks =>
              rw [follow, weights, weights, waiting, first]
              cases allows with
              | enter member room =>
                  exact lighter_of_replaced
                    (lt_of_mem_activation (by rw [List.length_cons]; omega)
                      task)
          | leave =>
              rw [follow, weights_leave]
              exact lighter_of_lost (by simp [activation])

/-- No course goes on for ever. -/
theorem wellFounded_steps (limits : Limits) (procedures : List Procedure) :
    WellFounded fun after before => Steps limits procedures before after := by
  have order : WellFounded (Lighter limits) :=
    InvImage.wf (weights limits) Multiset.wellFounded_isDershowitzMannaLT
  exact Subrelation.wf Steps.lighter order

/-- Nothing comes after the end of a course. -/
theorem Reaches.eq_ended {limits : Limits} {procedures : List Procedure}
    {state : State} {outcome : EStateM.Result Failure Machine Unit}
    (reaches : Reaches limits procedures (.ended outcome) state) :
    state = .ended outcome := by
  rcases reaches.cases_head with same | ⟨_, steps, _⟩
  · exact same.symm
  · cases steps

/-- A course has one end: all that happens before leads there. -/
theorem Reaches.ends {limits : Limits} {procedures : List Procedure}
    {start state : State} {outcome : EStateM.Result Failure Machine Unit}
    (ends : Reaches limits procedures start (.ended outcome))
    (reaches : Reaches limits procedures start state) :
    Reaches limits procedures state (.ended outcome) := by
  have determined : Relator.RightUnique (Steps limits procedures) := by
    intro before after after' steps steps'
    exact Option.some.inj (steps.symm.trans steps')
  rcases Relation.ReflTransGen.total_of_right_unique determined ends
    reaches with behind | before
  · rw [Reaches.eq_ended behind]
    exact .refl
  · exact before

end State

/-- Runs keep a store of literals so. -/
def literalness : StoreInvariant fun _ _ => True where
  Holds store := store.LiteralOnly
  literals := id
  setting result _ _ literals := literals.set _ result
  declaring _ _ literals := literals.insert_none _

open State (Steps CountedSteps CountedReaches)

/-- A course that counts rounds in words ends where the cap can be passed. -/
theorem State.acc_countedSteps {limits : Limits} {procedures : List Procedure}
    (passable : limits.Passable) {state : State}
    (within : state.Every (Task.Within limits)) :
    Acc (fun after before => CountedSteps limits procedures before after)
      state := by
  induction state using (wellFounded_steps limits procedures).induction with
  | _ state ih =>
      refine .intro state fun after counted => ?_
      have steps := (countedSteps_iff passable within).mp counted
      exact ih after steps (steps.within within)

/-- Every run ends, whatever procedures call each other and whatever limits are
set, unless the cap on rounds is the greatest word.  Each step replaces one of
the weights that remain, which count calls, nodes and rounds, by lighter ones,
so there is no endless course of steps; and the course of the run ends with its
outcome.  All that time the store holds literals, so reading a variable never
leads on to another one.  With the greatest word as the cap, a loop whose guard
always holds goes on for ever. -/
theorem course_ends (limits : Limits) (procedures : List Procedure)
    (nodes : List Node) (machine : Machine)
    (literals : machine.store.LiteralOnly) :
    (limits.Passable →
      (∀ before after,
        CountedReaches limits procedures (.start nodes machine) before →
        CountedSteps limits procedures before after →
          (after.weights limits).IsDershowitzMannaLT (before.weights limits)) ∧
      Acc (fun after before => CountedSteps limits procedures before after)
        (.start nodes machine) ∧
      ∀ state, CountedReaches limits procedures (.start nodes machine) state →
        CountedReaches limits procedures state
          (.ended (run limits procedures nodes machine)) ∧
        ∀ hops name, Store.readWithin hops name state.machine.store =
          Store.readWithin 0 name state.machine.store) ∧
    (¬limits.Passable → ∀ line, ∃ course : Nat → State,
      course 0 =
        .start [.block (.whileTrue (.literal (.bool true))) line []] machine ∧
      ∀ step, CountedSteps limits procedures (course step)
        (course (step + 1))) := by
  refine ⟨fun passable => ?_, fun unpassable line => ?_⟩
  · have within : (State.start nodes machine).Every (Task.Within limits) :=
      State.within_start nodes machine
    refine ⟨?_, State.acc_countedSteps passable within, ?_⟩
    · intro before after reached counted
      have bounded := reached.within passable within
      exact ((State.countedSteps_iff passable bounded).mp counted).lighter
    · intro state counted
      have reached := (State.countedReaches_iff passable within).mp counted
      have bounded := counted.within passable within
      have ends := (reaches_run limits procedures nodes machine).ends reached
      refine ⟨(State.countedReaches_iff passable bounded).mpr ends,
        fun hops name => ?_⟩
      have kept := (reached.keeps literalness.keeping (·.store.LiteralOnly)
        (fun _ holds => holds) (fun _ _ _ _ => trivial)
        (State.admitted_start (fun _ _ => trivial) machine) literals).2
      rw [Store.LiteralOnly.readWithin kept, Store.LiteralOnly.readWithin kept]
  · exact ⟨State.endless line machine, rfl,
      State.countedSteps_endless unpassable line machine⟩

/-- Two procedures that call each other are cut off, and so is the course.  A
loop is not, where the cap is the greatest word. -/
theorem course_ends_mutual_calls :
    Store.empty.LiteralOnly ∧ Limits.Passable ⟨0, 2⟩ ∧
    (∃ failure final,
      run ⟨0, 2⟩
        [⟨"p", 1, [.leaf (.call "q") 2]⟩, ⟨"q", 4, [.leaf (.call "p") 5]⟩]
        [.leaf (.call "p") 7] ⟨#[], .empty⟩ = .error failure final ∧
      failure.code = .depthLimit ∧
      CountedReaches ⟨0, 2⟩
        [⟨"p", 1, [.leaf (.call "q") 2]⟩, ⟨"q", 4, [.leaf (.call "p") 5]⟩]
        (.start [.leaf (.call "p") 7] ⟨#[], .empty⟩)
        (.ended (.error failure final))) ∧
    ¬Limits.Passable ⟨18446744073709551615, 0⟩ ∧
    ∃ course : Nat → State,
      course 0 =
        .start [.block (.whileTrue (.literal (.bool true))) 1 []]
          ⟨#[], .empty⟩ ∧
      ∀ step, CountedSteps ⟨18446744073709551615, 0⟩ [] (course step)
        (course (step + 1)) := by
  have passable : Limits.Passable ⟨0, 2⟩ := by
    unfold Limits.Passable
    decide
  have unpassable : ¬Limits.Passable ⟨18446744073709551615, 0⟩ :=
    Nat.lt_irrefl _
  refine ⟨Store.literalOnly_empty, passable, ⟨_, _, rfl, rfl, ?_⟩,
    unpassable, ?_⟩
  · exact (((course_ends _ _ _ _ Store.literalOnly_empty).1 passable).2.2 _
      .refl).1
  · exact (course_ends _ [] [] ⟨#[], .empty⟩ Store.literalOnly_empty).2
      unpassable 1

end Execution

end PenScript
