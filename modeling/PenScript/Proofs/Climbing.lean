import PenScript.Proofs.Grammar

/-!
# Climbing the levels of precedence

An expression can be read by descent: a comparison has sums around it, a sum is
a chain of products, and a product is a chain of operands, each of which is read
like a text of its own.  Nothing in the form of such a reader makes it end.  It
calls itself on the text of a token, which need not be shorter than the whole,
and its loops have no bound.

The reader is defined here as it stands, for calls that are nested up to a given
depth.  It never needs more than twice as many as there are tokens, and a few,
because the text of a word has no token but this word, and because each round of
a loop takes a token away.  What it reads is what `parse` reads.
-/

namespace PenScript.Value

/-- A reading by calls that are nested up to some depth.  It is `none` if they
do not suffice. -/
abbrev Nested := ExceptT ValueFault Option

/-- Calls are nested too deep. -/
def Nested.exhausted {α : Type} : Nested α :=
  ExceptT.mk none

mutual

/-- Reads a text, with the variables that are declared, or without variables at
all. -/
def climb : Nat → Option (String → Bool) → List Char → Nested Value
  | 0, _, _ => .exhausted
  | depth + 1, declared?, text =>
      let text := Text.trim text
      match Literal.ofText? text, declared? with
      | .error fault, _ => throw fault
      | .ok (some result), _ => return .literal result
      | .ok none, none => throw (unreadable text)
      | .ok none, some declared =>
          let tokens := Token.scan text
          if 1 < tokens.length then
            climbComparison depth declared (.unrecognised (String.ofList text))
              tokens
          else MonadExcept.ofExcept (ofName declared text)

/-- Reads a sum, and a second one if a comparison stands between the two. -/
def climbComparison :
    Nat → (String → Bool) → ValueFault → List Token → Nested Value
  | 0, _, _, _ => .exhausted
  | depth + 1, declared, malformed, tokens => do
      let (left, rest) ← climbOperand depth declared malformed
        .comparison tokens
      match rest with
      | .operator (.comparison op) :: rest =>
          let (right, rest) ← climbOperand depth declared malformed
            .comparison rest
          if rest.isEmpty then return .pending (.comparison op) left right
            else throw malformed
      | rest => if rest.isEmpty then return left else throw malformed

/-- Reads a sum or a product: an operand of the level, and then rounds. -/
def climbChain :
    Nat → (String → Bool) → ValueFault → Operator.Precedence → List Token →
    Nested (Value × List Token)
  | 0, _, _, _, _ => .exhausted
  | depth + 1, declared, malformed, level, tokens => do
      let (first, rest) ← climbOperand depth declared malformed level tokens
      climbRounds depth declared malformed level first rest

/-- Reads an operand of the operators of a level.  Only a product has words for
its operands. -/
def climbOperand :
    Nat → (String → Bool) → ValueFault → Operator.Precedence → List Token →
    Nested (Value × List Token)
  | 0, _, _, _, _ => .exhausted
  | depth + 1, declared, malformed, level, tokens =>
      match level, tokens with
      | .comparison, tokens => climbChain depth declared malformed .sum tokens
      | .sum, tokens => climbChain depth declared malformed .product tokens
      | .product, .word text :: rest =>
          do return (← climb depth (some declared) text, rest)
      | .product, _ => throw malformed

/-- The loop of a chain, which goes on as long as there is another round. -/
def climbRounds :
    Nat → (String → Bool) → ValueFault → Operator.Precedence →
    Value → List Token →
    Nested (Value × List Token)
  | 0, _, _, _, _, _ => .exhausted
  | depth + 1, declared, malformed, level, left, tokens => do
      match ← climbRound depth declared malformed level left tokens with
      | some (left, rest) =>
          climbRounds depth declared malformed level left rest
      | none => return (left, tokens)

/-- One round of a chain: an operator of the level, if there is one, and the
operand behind it. -/
def climbRound :
    Nat → (String → Bool) → ValueFault → Operator.Precedence →
    Value → List Token →
    Nested (Option (Value × List Token))
  | 0, _, _, _, _, _ => .exhausted
  | depth + 1, declared, malformed, level, left, tokens =>
      match tokens with
      | .operator op :: rest =>
          if op.precedence = level then do
            let (right, rest) ← climbOperand depth declared malformed level rest
            return some (.pending op left right, rest)
          else return none
      | _ => return none

end

namespace Nested

variable {α β : Type} {first : Nested α} {next : α → Nested β}

theorem run_bind_of_ok {answer : α} (ended : first.run = some (.ok answer)) :
    (first >>= next).run = (next answer).run := by
  rw [ExceptT.run_bind, ended]
  rfl

theorem bind_of_ok {answer : α} (ended : first.run = some (.ok answer)) :
    first >>= next = next answer :=
  ExceptT.ext (run_bind_of_ok ended)

theorem run_bind_of_error {fault : ValueFault}
    (ended : first.run = some (.error fault)) :
    (first >>= next).run = some (.error fault) := by
  rw [ExceptT.run_bind, ended]
  rfl

/-- A sequence answers if both of its parts do. -/
theorem of_run_bind_eq_ok {answer : β}
    (ended : (first >>= next).run = some (.ok answer)) :
    ∃ between, first.run = some (.ok between) ∧
      (next between).run = some (.ok answer) := by
  cases outcome : first.run with
  | none =>
      rw [ExceptT.run_bind, outcome] at ended
      cases ended
  | some result =>
      cases result with
      | error fault =>
          rw [run_bind_of_error outcome] at ended
          cases ended
      | ok between =>
          rw [run_bind_of_ok outcome] at ended
          exact ⟨between, rfl, ended⟩

end Nested

open Nested

variable {depth : Nat} {declared : String → Bool} {malformed : ValueFault}

/-! ### Single steps -/

section Steps

variable {level : Operator.Precedence} {left : Value} {tokens : List Token}

theorem climbOperand_word (text : List Char) (rest : List Token) :
    climbOperand (depth + 1) declared malformed .product (.word text :: rest) =
      (climb depth (some declared) text >>= fun operand =>
        pure (operand, rest)) := by
  rw [climbOperand]

theorem climbOperand_of_no_word
    (noWord : ∀ text rest, tokens ≠ .word text :: rest) :
    climbOperand (depth + 1) declared malformed .product tokens =
      throw malformed := by
  unfold climbOperand
  split
  · next same => cases same
  · next same => cases same
  · next text rest _ => exact absurd rfl (noWord text rest)
  · rfl

theorem climbRound_operator {op : Operator} (same : op.precedence = level)
    (rest : List Token) :
    climbRound (depth + 1) declared malformed level left
      (.operator op :: rest) =
      (climbOperand depth declared malformed level rest >>= fun (right, rest) =>
        pure (some (.pending op left right, rest))) := by
  rw [climbRound, if_pos same]

theorem climbRound_of_other
    (other : ∀ op rest, tokens = .operator op :: rest → op.precedence ≠ level) :
    climbRound (depth + 1) declared malformed level left tokens =
      pure none := by
  match tokens with
  | [] => rfl
  | .word text :: rest => rfl
  | .operator op :: rest => rw [climbRound, if_neg (other op rest rfl)]

/-- A round has read an operator of the level and the operand behind it. -/
theorem of_climbRound {value : Value} {rest : List Token}
    (read : (climbRound depth declared malformed level left tokens).run =
      some (.ok (some (value, rest)))) :
    ∃ lower op others right, tokens = .operator op :: others ∧
      op.precedence = level ∧
      value = .pending op left right ∧
      (climbOperand lower declared malformed level others).run =
        some (.ok (right, rest)) := by
  cases depth with
  | zero => cases read
  | succ lower =>
      by_cases continues : ∃ op others, tokens = .operator op :: others ∧
        op.precedence = level
      · obtain ⟨op, others, rfl, same⟩ := continues
        rw [climbRound_operator same] at read
        obtain ⟨⟨right, behind⟩, operand, returned⟩ := of_run_bind_eq_ok read
        cases returned
        exact ⟨lower, op, others, right, rfl, same, rfl, operand⟩
      · rw [climbRound_of_other fun op others split same =>
          continues ⟨op, others, split, same⟩] at read
        cases read

end Steps

/-! ### Rounds take tokens away -/

section Consuming

variable {level : Operator.Precedence} {left value : Value}
    {tokens rest : List Token}

/-- Reading an operand of the level takes at least one token away. -/
def Consumes (declared : String → Bool) (malformed : ValueFault)
    (level : Operator.Precedence) :
    Prop :=
  ∀ depth tokens value rest,
    (climbOperand depth declared malformed level tokens).run =
    some (.ok (value, rest)) → rest.length < tokens.length

theorem Consumes.round (consumes : Consumes declared malformed level)
    (read : (climbRound depth declared malformed level left tokens).run =
      some (.ok (some (value, rest)))) : rest.length < tokens.length := by
  obtain ⟨lower, op, others, right, rfl, _, _, operand⟩ := of_climbRound read
  exact Nat.lt_succ_of_lt (consumes lower others right rest operand)

theorem Consumes.rounds (consumes : Consumes declared malformed level)
    (read : (climbRounds depth declared malformed level left tokens).run =
      some (.ok (value, rest))) : rest.length ≤ tokens.length := by
  induction depth generalizing left tokens with
  | zero => cases read
  | succ lower ih =>
      obtain ⟨round, made, later⟩ := of_run_bind_eq_ok read
      cases round with
      | none =>
          cases later
          exact Nat.le_refl _
      | some state =>
          obtain ⟨next, behind⟩ := state
          exact (ih later).trans (consumes.round made).le

theorem Consumes.chain (consumes : Consumes declared malformed level)
    (read : (climbChain depth declared malformed level tokens).run =
      some (.ok (value, rest))) :
    rest.length < tokens.length := by
  cases depth with
  | zero => cases read
  | succ lower =>
      obtain ⟨⟨first, behind⟩, operand, later⟩ := of_run_bind_eq_ok read
      exact Nat.lt_of_le_of_lt (consumes.rounds later)
        (consumes lower tokens first behind operand)

theorem consumes_operand (level : Operator.Precedence) :
    Consumes declared malformed level := by
  have product : Consumes declared malformed .product := by
    rintro (_ | lower) tokens value rest read
    · cases read
    · by_cases word : ∃ text others, tokens = .word text :: others
      · obtain ⟨text, others, rfl⟩ := word
        rw [climbOperand_word] at read
        obtain ⟨operand, _, returned⟩ := of_run_bind_eq_ok read
        cases returned
        exact Nat.lt_succ_self _
      · rw [climbOperand_of_no_word fun text others same =>
          word ⟨text, others, same⟩] at read
        cases read
  have sum : Consumes declared malformed .sum := by
    rintro (_ | lower) tokens value rest read
    · cases read
    · exact product.chain read
  cases level with
  | product => exact product
  | sum => exact sum
  | comparison =>
      rintro (_ | lower) tokens value rest read
      · cases read
      · exact sum.chain read

end Consuming

/-! ### The reader ends -/

/-- Each word among the tokens is read to an end, as a single operand, by one
call. -/
def WordsEnd (declared : String → Bool) (tokens : List Token) : Prop :=
  ∀ word, .word word ∈ tokens →
    ∀ depth, (climb (depth + 1) (some declared) word).run =
      some (ofWord declared word)

/-- The tokens before `rest` are read as the value.  Its operators bind at least
as tight as the rank says, and an operator that follows binds less tight than
the bound. -/
structure ReadUpTo (declared : String → Bool) (malformed : ValueFault)
    (rank bound : Nat) (tokens : List Token) (value : Value)
    (rest : List Token) : Prop where
  grouped : value.GroupedFrom rank
  stops : ∀ op others, rest = .operator op :: others →
    op.precedence.rank < bound
  suffix : rest <:+ tokens
  reads : ∀ compared, readOperand declared malformed compared tokens =
    (readTail declared malformed compared rest).map fun tail =>
      (value.row.1, value.row.2 ++ tail)

/-- A reading of tokens ends, and agrees with the reading of all operands in a
row. -/
inductive Ends (declared : String → Bool) (malformed : ValueFault)
    (rank bound : Nat) (tokens : List Token)
    (reading : Nested (Value × List Token)) : Prop where
  | fails (fault : ValueFault) (ended : reading.run = some (.error fault))
      (reads : ∀ compared, readOperand declared malformed compared tokens =
        .error fault)
  | succeeds (value : Value) (rest : List Token)
      (ended : reading.run = some (.ok (value, rest)))
      (read : ReadUpTo declared malformed rank bound tokens value rest)

/-- Operands of the level are read to an end by calls of a depth that is linear
in the number of tokens. -/
def LevelEnds (declared : String → Bool) (malformed : ValueFault)
    (slope base : Nat) (level : Operator.Precedence) : Prop :=
  ∀ tokens depth, WordsEnd declared tokens →
    slope * tokens.length + base ≤ depth →
    Ends declared malformed (level.rank + 1) (level.rank + 1) tokens
      (climbOperand depth declared malformed level tokens)

section Ending

variable {tokens : List Token}

theorem WordsEnd.of_suffix (words : WordsEnd declared tokens) {token : Token}
    {rest : List Token} (suffix : token :: rest <:+ tokens) :
    WordsEnd declared rest :=
  fun word member =>
    words word (suffix.subset (List.mem_cons_of_mem token member))

theorem readOperand_word (compared : Bool) (text : List Char)
    (rest : List Token) :
    readOperand declared malformed compared (.word text :: rest) =
      ofWord declared text >>= fun operand =>
        (readTail declared malformed compared rest).map fun tail =>
          (operand, tail) := by
  rw [readOperand]
  cases ofWord declared text with
  | error fault => rfl
  | ok operand => cases readTail declared malformed compared rest <;> rfl

theorem readOperand_of_no_word
    (noWord : ∀ text rest, tokens ≠ .word text :: rest) (compared : Bool) :
    readOperand declared malformed compared tokens = .error malformed := by
  rw [readOperand]
  exact noWord

/-- An operator that is no comparison leaves it open whether one may follow. -/
theorem readTail_arithmetic {op : Operator}
    (arithmetic : op.precedence ≠ .comparison) (compared : Bool)
    (rest : List Token) :
    readTail declared malformed compared (.operator op :: rest) =
      (readOperand declared malformed compared rest).map
        fun (operand, tail) => (op, operand) :: tail := by
  rw [readTail, decide_eq_false arithmetic, Bool.and_false, Bool.or_false]
  cases readOperand declared malformed compared rest <;> rfl

theorem readTail_comparison (op : Comparison) (rest : List Token) :
    readTail declared malformed false (.operator (.comparison op) :: rest) =
      (readOperand declared malformed true rest).map
        fun (operand, tail) => (.comparison op, operand) :: tail := by
  have compares :
      decide ((Operator.comparison op).precedence = .comparison) = true :=
    rfl
  rw [readTail, compares, Bool.false_and, Bool.false_or]
  cases readOperand declared malformed true rest <;> rfl

theorem levelEnds_product : LevelEnds declared malformed 0 2 .product := by
  intro tokens depth words room
  obtain ⟨lower, rfl⟩ : ∃ lower, depth = lower + 1 + 1 := ⟨depth - 2, by omega⟩
  by_cases word : ∃ text rest, tokens = .word text :: rest
  · obtain ⟨text, rest, rfl⟩ := word
    have ended := words text List.mem_cons_self lower
    cases read : ofWord declared text with
    | error fault =>
        rw [read] at ended
        rw [climbOperand_word]
        apply Ends.fails fault (run_bind_of_error ended)
        intro compared
        rw [readOperand_word, read]
        rfl
    | ok operand =>
        have simple := operator?_of_ofWord read
        rw [read] at ended
        rw [climbOperand_word, bind_of_ok ended]
        apply Ends.succeeds operand rest rfl
        refine ⟨groupedFrom_of_operand simple _, ?_, List.suffix_cons _ _, ?_⟩
        · intro op others _
          exact Nat.lt_succ_of_le op.precedence.rank_le_two
        · intro compared
          rw [readOperand_word, read, row_of_operand simple]
          rfl
  · have noWord : ∀ text rest, tokens ≠ .word text :: rest :=
      fun text rest same => word ⟨text, rest, same⟩
    rw [climbOperand_of_no_word noWord]
    exact .fails malformed rfl (readOperand_of_no_word noWord)

variable {level : Operator.Precedence} {slope base : Nat}

/-- An operator and the operand behind it are added to what has been read. -/
theorem ReadUpTo.round {left right : Value} {op : Operator}
    {others rest : List Token} (arithmetic : op.precedence ≠ .comparison)
    (before :
      ReadUpTo declared malformed op.precedence.rank (op.precedence.rank + 1)
        tokens left (.operator op :: others))
    (operand : ReadUpTo declared malformed (op.precedence.rank + 1)
      (op.precedence.rank + 1) others
      right rest) :
    ReadUpTo declared malformed op.precedence.rank (op.precedence.rank + 1)
      tokens (.pending op left right) rest where
  grouped := by
    have positive : 1 ≤ op.precedence.rank := by
      cases level : op.precedence with
      | comparison => exact absurd level arithmetic
      | sum | product => decide
    apply groupedFrom_pending _ operand.grouped
    rw [Nat.max_eq_right positive]
    exact before.grouped
  stops := operand.stops
  suffix := operand.suffix.trans ((List.suffix_cons _ _).trans before.suffix)
  reads := by
    intro compared
    rw [before.reads, readTail_arithmetic arithmetic, operand.reads]
    cases readTail declared malformed compared rest with
    | error fault => rfl
    | ok tail => simp [Except.map, row]

theorem precedence_of_rank_eq {first second : Operator.Precedence}
    (same : first.rank = second.rank) : first = second := by
  cases first <;> cases second <;> first | rfl | cases same

/-- The next round is one call deeper, but at least one token has been taken
away before it. -/
theorem LevelEnds.rounds
    (operands : LevelEnds declared malformed slope base level)
    (arithmetic : level ≠ .comparison) (words : WordsEnd declared tokens)
    {left : Value} {rest : List Token}
    (before :
      ReadUpTo declared malformed level.rank (level.rank + 1) tokens left rest)
    (room : (slope + 1) * rest.length + base + 2 ≤ depth) :
    Ends declared malformed level.rank level.rank tokens
      (climbRounds depth declared malformed level left rest) := by
  induction depth generalizing left rest with
  | zero => cases room
  | succ lower ih =>
      obtain ⟨inner, rfl⟩ : ∃ inner, lower = inner + 1 := ⟨lower - 1, by omega⟩
      rw [climbRounds]
      by_cases continues : ∃ op others, rest = .operator op :: others ∧
        op.precedence = level
      · obtain ⟨op, others, rfl, rfl⟩ := continues
        have fewer : slope * others.length + base ≤ inner := by
          rw [List.length_cons, Nat.add_mul, Nat.mul_succ] at room
          omega
        cases operands others inner (words.of_suffix before.suffix) fewer with
        | fails fault ended reads =>
            rw [climbRound_operator rfl]
            apply Ends.fails fault (run_bind_of_error (run_bind_of_error ended))
            intro compared
            rw [before.reads, readTail_arithmetic arithmetic, reads]
            rfl
        | succeeds right behind ended read =>
            have made :
                (climbRound (inner + 1) declared malformed op.precedence left
                (.operator op :: others)).run =
                  some (.ok (some (.pending op left right, behind))) := by
              rw [climbRound_operator rfl, run_bind_of_ok ended]
              rfl
            have shorter := (consumes_operand op.precedence).round made
            rw [bind_of_ok made]
            apply ih (before.round arithmetic read)
            have below :=
              Nat.mul_le_mul_left (slope + 1) (Nat.succ_le_of_lt shorter)
            rw [Nat.mul_succ] at below
            omega
      · have other :
            ∀ op others, rest = .operator op :: others →
              op.precedence ≠ level :=
          fun op others split same => continues ⟨op, others, split, same⟩
        rw [climbRound_of_other other, pure_bind]
        refine .succeeds left rest rfl ⟨before.grouped, ?_, before.suffix,
          before.reads⟩
        intro op others split
        have below := before.stops op others split
        have different : op.precedence.rank ≠ level.rank :=
          fun same => other op others split (precedence_of_rank_eq same)
        omega

theorem LevelEnds.chain
    (operands : LevelEnds declared malformed slope base level)
    (arithmetic : level ≠ .comparison) (words : WordsEnd declared tokens)
    (room : (slope + 1) * tokens.length + base + 3 ≤ depth) :
    Ends declared malformed level.rank level.rank tokens
      (climbChain depth declared malformed level tokens) := by
  obtain ⟨lower, rfl⟩ : ∃ lower, depth = lower + 1 := ⟨depth - 1, by omega⟩
  have enough : slope * tokens.length + base ≤ lower := by
    rw [Nat.add_mul] at room
    omega
  rw [climbChain]
  cases operands tokens lower words enough with
  | fails fault ended reads =>
      exact .fails fault (run_bind_of_error ended) reads
  | succeeds first rest ended read =>
      rw [bind_of_ok ended]
      apply operands.rounds arithmetic words
      · exact ⟨read.grouped.mono (Nat.le_succ _), read.stops,
          read.suffix, read.reads⟩
      · have below := Nat.mul_le_mul_left (slope + 1) read.suffix.length_le
        omega

/-- A level ends if the tighter one does. -/
theorem levelEnds_comparison :
    LevelEnds declared malformed 2 10 .comparison := by
  have sums : LevelEnds declared malformed 1 6 .sum := by
    intro tokens depth words room
    obtain ⟨lower, rfl⟩ : ∃ lower, depth = lower + 1 := ⟨depth - 1, by omega⟩
    exact levelEnds_product.chain (by decide) words (by omega)
  intro tokens depth words room
  obtain ⟨lower, rfl⟩ : ∃ lower, depth = lower + 1 := ⟨depth - 1, by omega⟩
  exact sums.chain (by decide) words (by omega)

end Ending

/-! ### Whole expressions -/

section Expressions

variable {tokens : List Token}

theorem precedence_of_rank_lt_one {op : Operator}
    (loose : op.precedence.rank < 1) :
    op.precedence = .comparison :=
  precedence_of_rank_eq (Nat.lt_one_iff.mp loose)

/-- What is left behind a comparison and its operands is in the wrong order. -/
theorem readTail_of_left_over {rest : List Token} (some : rest ≠ [])
    (stops : ∀ op others, rest = .operator op :: others →
      op.precedence.rank < 1) :
    readTail declared malformed true rest = .error malformed := by
  cases rest with
  | nil => exact absurd rfl some
  | cons token others =>
      cases token with
      | word text => rfl
      | operator op =>
          rw [readTail, precedence_of_rank_lt_one (stops op others rfl)]
          rfl

/-- The expression whose operands are read in a row. -/
def readRow (declared : String → Bool) (malformed : ValueFault)
    (tokens : List Token) :
    Except ValueFault Value :=
  (readOperand declared malformed false tokens).map fun row =>
    ofOperands row.1 row.2

theorem ofTokens_eq_readRow (text : List Char) :
    ofTokens declared text tokens =
      readRow declared (.unrecognised (String.ofList text)) tokens := by
  unfold ofTokens readRow
  cases readOperand declared (.unrecognised (String.ofList text)) false
    tokens <;> rfl

variable {left right : Value}

theorem ReadUpTo.whole (read : ReadUpTo declared malformed 1 1 tokens left []) :
    readRow declared malformed tokens = .ok left := by
  rw [readRow, read.reads]
  simp [readTail, Except.map, ofOperands_row read.grouped.1]

theorem ReadUpTo.compared {op : Comparison} {others rest : List Token}
    (before :
      ReadUpTo declared malformed 1 1 tokens left
        (.operator (.comparison op) :: others))
    (after : ReadUpTo declared malformed 1 1 others right rest) :
    readRow declared malformed tokens =
      if rest.isEmpty then .ok (.pending (.comparison op) left right)
          else .error malformed := by
  rw [readRow, before.reads, readTail_comparison, after.reads]
  cases rest with
  | nil =>
      have grouped :
          (Value.pending (.comparison op) left right).GroupedFrom 0 :=
        groupedFrom_pending before.grouped after.grouped
      have whole := ofOperands_row grouped.1
      rw [row] at whole
      simp [readTail, Except.map, whole]
  | cons token more =>
      have refused :
          readTail declared malformed true (token :: more) = .error malformed :=
        readTail_of_left_over (List.cons_ne_nil _ _) after.stops
      simp [refused, Except.map]

theorem run_climbComparison (words : WordsEnd declared tokens)
    (room : 2 * tokens.length + 11 ≤ depth) :
    (climbComparison depth declared malformed tokens).run =
      some (readRow declared malformed tokens) := by
  obtain ⟨lower, rfl⟩ : ∃ lower, depth = lower + 1 := ⟨depth - 1, by omega⟩
  rw [climbComparison]
  cases levelEnds_comparison tokens lower words (by omega) with
  | fails fault ended reads =>
      rw [run_bind_of_error ended, readRow, reads]
      rfl
  | succeeds left rest ended read =>
      rw [run_bind_of_ok ended]
      match rest with
      | [] =>
          rw [read.whole]
          rfl
      | .word text :: others =>
          rw [readRow, read.reads]
          rfl
      | .operator (.arithmetic op) :: others =>
          have compares := precedence_of_rank_lt_one (read.stops _ _ rfl)
          cases op <;> cases compares
      | .operator (.comparison op) :: others =>
          have shorter := read.suffix.length_le
          rw [List.length_cons] at shorter
          dsimp only
          cases levelEnds_comparison others lower (words.of_suffix read.suffix)
              (by omega) with
          | fails fault ended reads =>
              rw [run_bind_of_error ended, readRow, read.reads,
                readTail_comparison, reads]
              rfl
          | succeeds right behind ended after =>
              rw [run_bind_of_ok ended, read.compared after]
              cases behind <;> rfl

end Expressions

/-- A word is read by one call: there is no expression in it. -/
theorem run_climb_of_wordAt {text : List Char} (word : Token.WordAt true text)
    (depth : Nat) :
    (climb (depth + 1) (some declared) text).run =
      some (ofWord declared text) := by
  unfold climb ofWord
  dsimp only
  rw [Text.trim_of_free (Token.isBlank_of_wordAt word),
    Token.scan_of_wordAt word]
  cases Literal.ofText? text with
  | error fault => rfl
  | ok found =>
      cases found with
      | some result => rfl
      | none =>
          dsimp only
          cases ofName declared text <;> rfl

theorem wordsEnd_scan (text : List Char) :
    WordsEnd declared (Token.scan text) :=
  fun _ member depth =>
    run_climb_of_wordAt (Token.wordAt_of_mem_scan member) depth

/-- Reading by descent ends, with what `parse` reads. -/
theorem run_climb (declared : String → Bool) (text : List Char)
    (room : 2 * (Token.scan (Text.trim text)).length + 11 ≤ depth) :
    (climb (depth + 1) (some declared) text).run =
      some (parse declared text) := by
  unfold climb parse
  dsimp only
  cases Literal.ofText? (Text.trim text) with
  | error fault => rfl
  | ok found =>
      cases found with
      | some result => rfl
      | none =>
          dsimp only
          split
          · rw [run_climbComparison (wordsEnd_scan _) room, ofTokens_eq_readRow]
          · cases ofName declared (Text.trim text) <;> rfl

theorem run_climb_none (depth : Nat) (text : List Char) :
    (climb (depth + 1) none text).run = some (parseLiteral text) := by
  unfold climb parseLiteral
  dsimp only
  cases Literal.ofText? (Text.trim text) with
  | error fault => rfl
  | ok found => cases found <;> rfl

/-- The reader by descent ends on every text, with or without variables, and
gives the answer of `parse`: calls that are nested twice as deep as there are
tokens, and a few more, suffice.  A word of the text is the only token of its
own text, and is read by a single call, without reading an expression again.  A
round of a sum or a product leaves fewer tokens than it found. -/
theorem climb_ends (declared : String → Bool) (text : List Char) :
    (∀ depth, 2 * (Token.scan (Text.trim text)).length + 12 ≤ depth →
      (climb depth (some declared) text).run = some (parse declared text)) ∧
    (∀ depth, 1 ≤ depth →
      (climb depth none text).run = some (parseLiteral text)) ∧
    (∀ word, .word word ∈ Token.scan text →
      Token.scan word = [.word word] ∧
      ∀ depth, 1 ≤ depth →
        (climb depth (some declared) word).run = some (ofWord declared word)) ∧
    ∀ depth malformed level left tokens value rest,
      (climbRound depth declared malformed level left tokens).run =
          some (.ok (some (value, rest))) →
        rest.length < tokens.length := by
  refine ⟨?_, ?_, ?_, ?_⟩
  · rintro (_ | lower) room
    · cases room
    · exact run_climb declared text (Nat.le_of_succ_le_succ room)
  · rintro (_ | lower) room
    · cases room
    · exact run_climb_none lower text
  · intro word member
    have wordAt := Token.wordAt_of_mem_scan member
    refine ⟨Token.scan_of_wordAt wordAt, ?_⟩
    rintro (_ | lower) room
    · cases room
    · exact run_climb_of_wordAt wordAt lower
  · intro depth malformed level left tokens value rest read
    exact (consumes_operand level).round read

/-- The sign of `-5x` behind a multiplication belongs to the word, and it still
does when the word is read alone.  As a number it is refused there.  Behind `a`,
the tokens of `*-5` are one round. -/
theorem climb_ends_signed_word :
    Token.scan "a*-5x".toList =
      [.word "a".toList, .operator (.arithmetic .multiply),
        .word "-5x".toList] ∧
    Token.scan "-5x".toList = [.word "-5x".toList] ∧
    (climb 1 (some (· == "a")) "-5x".toList).run =
      some (.error (.malformedNumber "-5x")) ∧
    (climb 18 (some (· == "a")) "a*-5x".toList).run =
      some (.error (.malformedNumber "-5x")) ∧
    (climb 1 none "a*-5x".toList).run = some (parseLiteral "a*-5x".toList) ∧
    ∃ product,
      (climbRound 3 (· == "a") (.unrecognised "a*-5") .product (.reference "a")
        [.operator (.arithmetic .multiply), .word "-5".toList]).run =
          some (.ok (some (product, []))) ∧
      ([] : List Token).length <
        [Token.operator (.arithmetic .multiply), .word "-5".toList].length := by
  have scanned : Token.scan "a*-5x".toList =
      [.word "a".toList, .operator (.arithmetic .multiply),
        .word "-5x".toList] := by decide +kernel
  have refused :
      parse (· == "a") "a*-5x".toList = .error (.malformedNumber "-5x") ∧
      ofWord (· == "a") "-5x".toList = .error (.malformedNumber "-5x") := by
      decide +kernel
  have room : 2 * (Token.scan (Text.trim "a*-5x".toList)).length + 12 ≤ 18 := by
    decide +kernel
  have round :
      (climbRound 3 (· == "a") (.unrecognised "a*-5") .product (.reference "a")
      [.operator (.arithmetic .multiply), .word "-5".toList]).run =
        some (.ok (some (.pending (.arithmetic .multiply) (.reference "a")
          (.literal (.int (-5))), []))) := by decide +kernel
  obtain ⟨ended, endedLiteral, words, rounds⟩ :=
    climb_ends (· == "a") "a*-5x".toList
  have word : Token.word "-5x".toList ∈ Token.scan "a*-5x".toList := by
    rw [scanned]
    decide
  obtain ⟨single, endedWord⟩ := words _ word
  have readWord := endedWord 1 (Nat.le_refl 1)
  have readWhole := ended 18 room
  rw [refused.2] at readWord
  rw [refused.1] at readWhole
  exact ⟨scanned, single, readWord, readWhole, endedLiteral 1 (Nat.le_refl 1),
    _, round, rounds _ _ _ _ _ _ _ round⟩

end PenScript.Value
