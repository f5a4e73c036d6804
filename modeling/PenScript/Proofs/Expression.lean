import PenScript.Value.Parser

/-!
# What reading a value produces

A value that has been read names declared variables only, and none of its
operations has been carried out.  Grouping the operands of an expression keeps
both.
-/

namespace PenScript.Value

/-- No operation of the value has been carried out. -/
def Unevaluated : Value → Prop
  | .literal _ => True
  | .reference _ => True
  | .pending _ left right => left.Unevaluated ∧ right.Unevaluated
  | .settled _ => False

/-- A value that can be written where the given names are declared. -/
def Written (declared : String → Bool) : Value → Prop
  | .literal _ => True
  | .reference name => declared name = true
  | .pending _ left right => left.Written declared ∧ right.Written declared
  | .settled _ => False

variable {declared : String → Bool}

theorem Written.unevaluated {value : Value} (written : value.Written declared) :
    value.Unevaluated := by
  induction value with
  | literal => trivial
  | reference => trivial
  | pending op left right ihLeft ihRight =>
      exact ⟨ihLeft written.1, ihRight written.2⟩
  | settled => exact written

theorem Written.mono {wider : String → Bool}
    (included : ∀ name, declared name = true → wider name = true)
    {value : Value} (written : value.Written declared) :
    value.Written wider := by
  induction value with
  | literal => trivial
  | reference name => exact included name written
  | pending op left right ihLeft ihRight =>
      exact ⟨ihLeft written.1, ihRight written.2⟩
  | settled => exact written

theorem written_ofName {text : List Char} {value : Value}
    (read : ofName declared text = .ok value) : value.Written declared := by
  unfold ofName at read
  dsimp only at read
  split at read
  · split at read
    · next known =>
        cases read
        exact known
    · cases read
  · cases read

theorem written_ofWord {text : List Char} {value : Value}
    (read : ofWord declared text = .ok value) : value.Written declared := by
  unfold ofWord at read
  split at read
  · cases read
  · cases read
    trivial
  · exact written_ofName read

/-! ### Expressions -/

/-- Operands that can be written, with an operator before each. -/
def Tail.Written (declared : String → Bool) (tail : Tail) : Prop :=
  ∀ entry ∈ tail, entry.2.Written declared

theorem Tail.written_cons {op : Operator} {operand : Value} {tail : Tail} :
    Tail.Written declared ((op, operand) :: tail) ↔
      operand.Written declared ∧ tail.Written declared := by
  simp [Tail.Written]

mutual

theorem written_readOperand {malformed : ValueFault} {compared : Bool}
    {tokens : List Token} {first : Value} {tail : Tail}
    (read : readOperand declared malformed compared tokens = .ok (first, tail)) :
    first.Written declared ∧ tail.Written declared := by
  match tokens with
  | [] => cases read
  | .operator _ :: _ => cases read
  | .word text :: rest =>
      unfold readOperand at read
      split at read
      · cases read
      · next word =>
          split at read
          · cases read
          · next after =>
              cases read
              exact ⟨written_ofWord word, written_readTail after⟩

theorem written_readTail {malformed : ValueFault} {compared : Bool}
    {tokens : List Token} {tail : Tail}
    (read : readTail declared malformed compared tokens = .ok tail) :
    tail.Written declared := by
  match tokens with
  | [] =>
      cases read
      exact fun _ member => by cases member
  | .word _ :: _ => cases read
  | .operator op :: rest =>
      unfold readTail at read
      dsimp only at read
      split at read
      · cases read
      · split at read
        · cases read
        · next after =>
            cases read
            exact Tail.written_cons.mpr (written_readOperand after)

end

theorem written_group (level : Operator.Precedence) {first : Value}
    {tail : Tail} (written : first.Written declared)
    (rest : tail.Written declared) :
    (group level first tail).1.Written declared ∧
      Tail.Written declared (group level first tail).2 := by
  induction tail generalizing first with
  | nil => exact ⟨written, rest⟩
  | cons entry tail ih =>
      obtain ⟨operand, later⟩ := Tail.written_cons.mp rest
      unfold group
      split
      · exact ih ⟨written, operand⟩ later
      · exact ⟨written, Tail.written_cons.mpr (ih operand later)⟩

theorem written_ofOperands {first : Value} {tail : Tail}
    (written : first.Written declared) (rest : tail.Written declared) :
    (ofOperands first tail).Written declared := by
  have products := written_group .product written rest
  have sums := written_group .sum products.1 products.2
  exact (written_group .comparison sums.1 sums.2).1

theorem written_parse {text : List Char} {value : Value}
    (read : parse declared text = .ok value) : value.Written declared := by
  unfold parse at read
  dsimp only at read
  split at read
  · cases read
  · cases read
    trivial
  · split at read
    · unfold ofTokens at read
      split at read
      · cases read
      · next operands =>
          cases read
          have written := written_readOperand operands
          exact written_ofOperands written.1 written.2
    · exact written_ofName read

end PenScript.Value
