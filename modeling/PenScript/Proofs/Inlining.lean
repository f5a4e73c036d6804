import PenScript.Proofs.Returns

/-!
# Calls as their procedures

A call of a procedure without a `ret` does what the nodes of the procedure do in
its place.  The nodes are then carried out one call less deep, which can only
matter to a run that is cut off for its depth.
-/

namespace PenScript

open Stateful

/-- In a list of nodes, or in a block anywhere among them, one call of a
procedure gives way to the nodes of the procedure.  A call is a leaf as a rule;
a block that it heads is carried out in the same way. -/
inductive Node.Inlines (procedure : Procedure) :
    List Node → List Node → Prop where
  | here {node : Node} (calls : node.command = .call procedure.name)
      (rest : List Node) :
      Inlines procedure (node :: rest) (procedure.body ++ rest)
  | inside (header : Command) (line : Nat) {body inlined : List Node}
      (inBody : Inlines procedure body inlined) (rest : List Node) :
      Inlines procedure (.block header line body :: rest)
        (.block header line inlined :: rest)
  | later (node : Node) {rest inlined : List Node}
      (inRest : Inlines procedure rest inlined) :
      Inlines procedure (node :: rest) (node :: inlined)

namespace Execution

/-- An execution that ends because calls are nested too deep. -/
def EndsTooDeep {α : Type} : EStateM.Result Failure Machine α → Prop
  | .ok _ _ => False
  | .error failure _ => failure.code = .depthLimit

/-- The second execution does what the first one does, unless the first one ends
for its depth. -/
def Deepens {α : Type} (shallow deep : Execution α) : Prop :=
  ∀ machine, ¬EndsTooDeep (shallow machine) → deep machine = shallow machine

namespace Deepens

variable {α β : Type}

theorem refl (execution : Execution α) : Deepens execution execution :=
  fun _ _ => rfl

theorem tooDeep {failure : Failure} (code : failure.code = .depthLimit)
    (deep : Execution α) :
    Deepens (throw failure) deep :=
  fun _ ends => absurd code ends

theorem sequence {shallow deep : Execution α} {next next' : α → Execution β}
    (first : Deepens shallow deep)
    (rest : ∀ answer, Deepens (next answer) (next' answer)) :
    Deepens (shallow >>= next) (deep >>= next') := by
  intro machine ends
  have same := first machine
  cases outcome : shallow machine with
  | error failure middle =>
      rw [bind_of_error outcome] at ends ⊢
      rw [outcome] at same
      exact bind_of_error (same ends)
  | ok answer middle =>
      rw [bind_of_ok outcome] at ends ⊢
      rw [outcome] at same
      rw [bind_of_ok (same id)]
      exact rest answer middle ends

theorem whileLoop {check check' : Execution Bool} {body body' : Execution Flow}
    (checks : Deepens check check') (bodies : Deepens body body')
    (overrun : Failure) (remaining : Nat) :
    Deepens (whileLoop check body overrun remaining)
      (whileLoop check' body' overrun remaining) := by
  induction remaining with
  | zero => exact checks.sequence fun _ => refl _
  | succ remaining ih =>
      apply checks.sequence
      intro holds
      split
      · apply bodies.sequence
        intro flow
        cases flow with
        | next => exact ih
        | ret => exact refl _
      · exact refl _

def relation (limits : Limits) :
    RunRelation (fun _ _ => True) limits limits where
  Rel shallow deep := Deepens shallow deep
  returning answer := refl (pure answer)
  sequence := sequence
  performing _ := refl _
  guarding _ _ := refl _
  bounding _ := refl _
  counting _ _ := refl _
  repeating _ checks bodies := whileLoop checks bodies _ _

/-- More calls inside each other may be allowed. -/
theorem callProcedure (limits : Limits) (procedures : List Procedure)
    {remaining remaining' : Nat} (le : remaining ≤ remaining') :
    (relation limits).Calls (callProcedure limits procedures remaining)
      (callProcedure limits procedures remaining') := by
  apply (relation limits).callProcedure (fun _ _ _ _ => trivial) _ _ le
  · intro name line _
    exact refl _
  · intro name line deeper _
    exact tooDeep rfl _

end Deepens

variable (limits : Limits)

theorem runNodes_append (call : String → Nat → Execution Unit)
    {first : List Node} (returnFree : Node.ReturnFree first)
    (second : List Node) :
    runNodes limits call (first ++ second) =
      runNodes limits call first >>= fun _ => runNodes limits call second := by
  induction first with
  | nil => rw [List.nil_append, runNodes, pure_bind]
  | cons node rest ih =>
      have goesOn := GoesOn.runNode limits call node returnFree.head
      calc runNodes limits call (node :: (rest ++ second))
          = runNode limits call node >>= fun _ =>
            runNodes limits call (rest ++ second) :=
            goesOn.runNodes_cons (rest ++ second)
        _ = runNode limits call node >>= fun _ =>
          runNodes limits call rest >>= fun _ =>
              runNodes limits call second := by rw [ih returnFree.tail]
        _ = runNodes limits call (node :: rest) >>= fun _ =>
          runNodes limits call second := by
            rw [goesOn.runNodes_cons rest, bind_assoc]

theorem runNodes_call (call : String → Nat → Execution Unit) {node : Node}
    {name : String} (calls : node.command = .call name) (rest : List Node) :
    runNodes limits call (node :: rest) =
      call name node.line >>= fun _ => runNodes limits call rest := by
  have single :
      runNode limits call node = (do call name node.line; return .next) := by
    cases node with
    | leaf command line =>
        cases calls
        rw [runNode, runLeaf, Node.line]
    | block header line body =>
        cases calls
        unfold runNode
        rfl
  rw [runNodes, single, bind_assoc]
  simp only [pure_bind]

section Inlining

variable {procedures : List Procedure} {procedure : Procedure}
  (found : Procedure.find? procedure.name procedures = some procedure)
  (returnFree : Node.ReturnFree procedure.body)

include found returnFree

/-- A call does what its procedure does in its place, one call less deep. -/
theorem deepens_of_call {node : Node}
    (calls : node.command = .call procedure.name) (rest : List Node)
    (remaining : Nat) :
    Deepens
      (runNodes limits (callProcedure limits procedures remaining)
        (node :: rest))
      (runNodes limits (callProcedure limits procedures remaining)
        (procedure.body ++ rest)) := by
  rw [runNodes_call limits _ calls]
  cases remaining with
  | zero =>
      rw [callProcedure_zero limits node.line found]
      exact Deepens.tooDeep rfl _
  | succ remaining =>
      rw [callProcedure_succ limits node.line found, bind_assoc,
        runNodes_append limits _ returnFree]
      have deeper :=
        Deepens.callProcedure limits procedures (Nat.le_succ remaining)
      have bodies :=
        (Deepens.relation limits).runNodes deeper procedure.body fun _ _ =>
          trivial
      exact bodies.sequence fun _ => .refl _

theorem deepens_of_inlines {nodes inlined : List Node}
    (inlines : Node.Inlines procedure nodes inlined) (remaining : Nat) :
    Deepens (runNodes limits (callProcedure limits procedures remaining) nodes)
      (runNodes limits (callProcedure limits procedures remaining)
        inlined) := by
  induction inlines with
  | here calls rest =>
      exact deepens_of_call limits found returnFree calls rest remaining
  | @inside header line body inlined _ rest ih =>
      have calls :=
        Deepens.callProcedure limits procedures (Nat.le_refl remaining)
      rw [runNodes, runNodes]
      exact ((Deepens.relation limits).runBlock calls trivial fun _ =>
        ih).sequence fun _ => .refl _
  | @later node rest inlined _ ih =>
      rw [runNodes, runNodes]
      apply (Deepens.refl _).sequence
      intro flow
      cases flow with
      | next => exact ih
      | ret => exact .refl _

end Inlining

/-- Calls are inlining.  When a call of a procedure without a `ret` gives way to
the nodes of the procedure, wherever it stands among the nodes of a program, a
run has the same outcome, be it a success or a failure, and leaves the same
canvas and the same store.  Only a run that was cut off for the depth of its
calls may then go on. -/
theorem run_of_inlined_call {procedures : List Procedure}
    {procedure : Procedure}
    (found : Procedure.find? procedure.name procedures = some procedure)
    (returnFree : Node.ReturnFree procedure.body) {items inlined : List Node}
    (inlines : Node.Inlines procedure items inlined) (machine : Machine)
    (ends : ¬EndsTooDeep (run limits procedures items machine)) :
    run limits procedures inlined machine =
      run limits procedures items machine := by
  have nodes := deepens_of_inlines limits found returnFree inlines limits.depth
  have whole :
      Deepens (run limits procedures items) (run limits procedures inlined) :=
    nodes.sequence fun _ => .refl _
  exact whole machine ends

/-- A procedure that is called in each round of a loop, and calls another one
that returns.  Two calls inside each other are just allowed. -/
theorem run_of_inlined_call_in_loop :
    let outer : Procedure :=
      ⟨"outer", 1, [.leaf .dot 2, .leaf (.call "inner") 3]⟩
    let inner : Procedure :=
      ⟨"inner", 5, [.leaf .clear 6, .leaf .ret 7, .leaf .dot 8]⟩
    let loop (body : List Node) : Node :=
      .block (.forRange "i" (.literal (.int 1)) (.literal (.int 2)) none) 10
        body
    let items :=
      [loop [.leaf (.call "outer") 11, .leaf .resetPen 12], .leaf .dot 14]
    let inlined :=
      [loop [.leaf .dot 2, .leaf (.call "inner") 3, .leaf .resetPen 12],
        .leaf .dot 14]
    Node.Inlines outer items inlined ∧
    ¬EndsTooDeep (run ⟨0, 2⟩ [outer, inner] items ⟨#[], .empty⟩) ∧
    run ⟨0, 2⟩ [outer, inner] inlined ⟨#[], .empty⟩ =
      run ⟨0, 2⟩ [outer, inner] items ⟨#[], .empty⟩ := by
  intro outer inner loop items inlined
  have inlines : Node.Inlines outer items inlined := .inside _ _ (.here rfl _) _
  have returnFree : Node.ReturnFree outer.body := by
    unfold Node.ReturnFree
    decide
  have ends : ¬EndsTooDeep (run ⟨0, 2⟩ [outer, inner] items ⟨#[], .empty⟩) := id
  exact ⟨inlines, ends,
    run_of_inlined_call ⟨0, 2⟩ rfl returnFree inlines ⟨#[], .empty⟩ ends⟩

end Execution

end PenScript
