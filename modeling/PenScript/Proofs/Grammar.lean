import Mathlib.Data.List.Forall2
import PenScript.Proofs.Expression
import PenScript.Proofs.Tokens

/-!
# The grammar of expressions

The tokens of an expression alternate between operands and operators.  Among the
trees with these operands and operators in this order, one is grouped as the
precedence of the operators asks, and reading the tokens gives this tree.
-/

namespace PenScript

/-- How tightly operators of a level bind. -/
def Operator.Precedence.rank : Precedence → Nat
  | .comparison => 0
  | .sum => 1
  | .product => 2

theorem Operator.Precedence.rank_le_two (level : Precedence) :
    level.rank ≤ 2 := by
  cases level <;> decide

namespace Token

/-- Words and operators in turn, with a word first and last. -/
def Alternating : List Token → Prop
  | [.word _] => True
  | .word _ :: .operator _ :: rest => Alternating rest
  | _ => False

def isComparison : Token → Bool
  | .operator (.comparison _) => true
  | _ => false

theorem isComparison_operator (op : Operator) :
    isComparison (.operator op) = decide (op.precedence = .comparison) := by
  rcases op with (_ | _ | _ | _) | _ <;> rfl

end Token

namespace Value

/-! ### Trees and what is written for them -/

/-- What stands at one place of an expression. -/
inductive Item where
  | operand (value : Value)
  | operator (op : Operator)

/-- The operands and operators of a value, from left to right. -/
def items : Value → List Item
  | .pending op left right => left.items ++ .operator op :: right.items
  | operand => [.operand operand]

/-- The token is the operator, or it is read by itself as the operand. -/
inductive Writes (declared : String → Bool) : Token → Item → Prop where
  | operand {text : List Char} {value : Value}
      (read : parse declared text = .ok value) :
      Writes declared (.word text) (.operand value)
  | operator (op : Operator) : Writes declared (.operator op) (.operator op)

/-- The operator of an operation that has not been carried out. -/
def operator? : Value → Option Operator
  | .pending op _ _ => some op
  | _ => none

/-- Every operation stands where its operator puts it without brackets.  The
operator of a right operand binds tighter than the one outside, and that of a
left operand at least as tight, so that operators of one level are grouped from
the left.  A comparison is no operand at all. -/
def Grouped : Value → Prop
  | .pending op left right =>
      (∀ inner, left.operator? = some inner →
        inner.precedence ≠ .comparison ∧
        op.precedence.rank ≤ inner.precedence.rank) ∧
      (∀ inner, right.operator? = some inner →
        op.precedence.rank < inner.precedence.rank) ∧
      left.Grouped ∧ right.Grouped
  | _ => True

/-! ### Operands in a row -/

/-- The first operand of a value, and the operators and operands after it. -/
def row : Value → Value × Tail
  | .pending op left right =>
      (left.row.1, left.row.2 ++ (op, right.row.1) :: right.row.2)
  | operand => (operand, [])

/-- What is written for operands with an operator before each. -/
def Tail.items (tail : Tail) : List Item :=
  tail.flatMap fun entry => .operator entry.1 :: entry.2.items

theorem Tail.items_cons (op : Operator) (operand : Value) (tail : Tail) :
    Tail.items ((op, operand) :: tail) = .operator op :: operand.items ++
      tail.items := rfl

theorem Tail.items_append (tail rest : Tail) :
    Tail.items (tail ++ rest) = tail.items ++ rest.items :=
  List.flatMap_append

section Group

variable {level : Operator.Precedence} {op : Operator} (first operand : Value)
    (rest : Tail)

theorem group_nil : group level first [] = (first, []) := rfl

theorem group_cons_of_eq (same : op.precedence = level) :
    group level first ((op, operand) :: rest) =
      group level (.pending op first operand) rest :=
  if_pos same

theorem group_cons_of_ne (other : op.precedence ≠ level) :
    group level first ((op, operand) :: rest) =
      (first,
        (op, (group level operand rest).1) :: (group level operand rest).2) :=
  if_neg other

end Group

/-- The operands in a row with the products and then the sums carried into
them. -/
def groupSums (first : Value) (tail : Tail) : Value × Tail :=
  group .sum (group .product first tail).1 (group .product first tail).2

theorem ofOperands_eq (first : Value) (tail : Tail) :
    ofOperands first tail =
      (group .comparison (groupSums first tail).1 (groupSums first tail).2).1 :=
        rfl

/-- Grouping changes nothing about what is written. -/
theorem items_group (level : Operator.Precedence) (first : Value)
    (tail : Tail) :
    (group level first tail).1.items ++ Tail.items (group level first tail).2 =
      first.items ++ tail.items := by
  induction tail generalizing first with
  | nil => rfl
  | cons entry tail ih =>
      obtain ⟨op, operand⟩ := entry
      by_cases same : op.precedence = level
      · rw [group_cons_of_eq _ _ _ same, ih, items, Tail.items_cons,
          List.append_assoc]
      · rw [group_cons_of_ne _ _ _ same, Tail.items_cons, Tail.items_cons,
          List.cons_append, List.cons_append, ih]

theorem items_groupSums (first : Value) (tail : Tail) :
    (groupSums first tail).1.items ++ Tail.items (groupSums first tail).2 =
      first.items ++ tail.items := by
  rw [groupSums, items_group, items_group]

/-- The operators of the level are those that are carried into operands. -/
theorem operators_group (level : Operator.Precedence) (first : Value)
    (tail : Tail) :
    (group level first tail).2.map Prod.fst =
      (tail.map Prod.fst).filter fun op => !decide (op.precedence = level) := by
  induction tail generalizing first with
  | nil => rfl
  | cons entry tail ih =>
      obtain ⟨op, operand⟩ := entry
      by_cases same : op.precedence = level
      · simp [group_cons_of_eq _ _ _ same, ih, same]
      · simp [group_cons_of_ne _ _ _ same, ih, same]

/-- The comparisons among the operators. -/
def Tail.comparisons (tail : Tail) : List Operator :=
  (tail.map Prod.fst).filter fun op => decide (op.precedence = .comparison)

/-- Only the comparisons remain behind the sums. -/
theorem operators_groupSums (first : Value) (tail : Tail) :
    (groupSums first tail).2.map Prod.fst = tail.comparisons := by
  rw [groupSums, operators_group, operators_group, List.filter_filter,
    Tail.comparisons]
  congr 1
  funext op
  cases op.precedence <;> rfl

/-! ### Grouping gives a grouped tree -/

/-- The value is grouped, and its own operator binds at least as tight as the
rank says. -/
def GroupedFrom (rank : Nat) (value : Value) : Prop :=
  value.Grouped ∧ ∀ op, value.operator? = some op → rank ≤ op.precedence.rank

theorem GroupedFrom.mono {rank lower : Nat} {value : Value}
    (grouped : value.GroupedFrom rank) (le : lower ≤ rank) :
    value.GroupedFrom lower :=
  ⟨grouped.1, fun op root => le.trans (grouped.2 op root)⟩

theorem groupedFrom_of_operand {value : Value}
    (operand : value.operator? = none) (rank : Nat) :
    value.GroupedFrom rank := by
  refine ⟨?_, ?_⟩
  · cases value with
    | pending op left right => cases operand
    | literal | reference | settled => trivial
  · rw [operand]
    intro op root
    cases root

/-- An operation is grouped if its operands are, and their operators bind tight
enough. -/
theorem groupedFrom_pending {op : Operator} {left right : Value}
    (groupedLeft : left.GroupedFrom (max 1 op.precedence.rank))
    (groupedRight : right.GroupedFrom (op.precedence.rank + 1)) :
    (Value.pending op left right).GroupedFrom op.precedence.rank := by
  refine ⟨⟨fun inner root => ?_, groupedRight.2, groupedLeft.1, groupedRight.1⟩,
    ?_⟩
  · have tight := groupedLeft.2 inner root
    refine ⟨fun comparison => ?_, (Nat.le_max_right _ _).trans tight⟩
    rw [comparison] at tight
    exact absurd ((Nat.le_max_left 1 _).trans tight) (by decide)
  · rintro _ ⟨⟩
    exact Nat.le_refl _

theorem groupedFrom_group (level : Operator.Precedence)
    (arithmetic : level ≠ .comparison) {first : Value} {tail : Tail}
    (groupedFirst : first.GroupedFrom level.rank)
    (groupedTail : ∀ entry ∈ tail, entry.2.GroupedFrom (level.rank + 1)) :
    (group level first tail).1.GroupedFrom level.rank ∧
      ∀ entry ∈ (group level first tail).2, entry.2.GroupedFrom level.rank := by
  have positive : 1 ≤ level.rank := by
    cases level with
    | comparison => exact absurd rfl arithmetic
    | sum | product => decide
  induction tail generalizing first with
  | nil => exact ⟨groupedFirst, by simp [group_nil]⟩
  | cons entry tail ih =>
      obtain ⟨op, operand⟩ := entry
      obtain ⟨groupedOperand, later⟩ := List.forall_mem_cons.mp groupedTail
      by_cases same : op.precedence = level
      · subst same
        rw [group_cons_of_eq _ _ _ rfl]
        rw [← Nat.max_eq_right positive] at groupedFirst
        exact ih (groupedFrom_pending groupedFirst groupedOperand) later
      · rw [group_cons_of_ne _ _ _ same]
        have rest := ih (groupedOperand.mono (Nat.le_succ _)) later
        exact ⟨groupedFirst, List.forall_mem_cons.mpr rest⟩

/-- No operand has an operator of its own. -/
def Tail.Simple (tail : Tail) : Prop :=
  ∀ entry ∈ tail, entry.2.operator? = none

/-- At most one comparison is left behind the sums, and takes these as its
operands. -/
theorem grouped_comparison {first : Value} {tail : Tail}
    (groupedFirst : first.GroupedFrom 1)
    (groupedTail : ∀ entry ∈ tail, entry.2.GroupedFrom 1)
    (comparisons : ∀ entry ∈ tail, entry.1.precedence = .comparison)
    (once : tail.length ≤ 1) :
    (group .comparison first tail).1.Grouped ∧
      (group .comparison first tail).1.items = first.items ++ tail.items := by
  cases tail with
  | nil => exact ⟨groupedFirst.1, (List.append_nil _).symm⟩
  | cons entry rest =>
      obtain ⟨op, operand⟩ := entry
      have alone : rest = [] :=
        List.eq_nil_of_length_eq_zero
          (Nat.le_zero.mp (Nat.le_of_succ_le_succ once))
      subst alone
      have compares : op.precedence = .comparison :=
        comparisons _ List.mem_cons_self
      rw [group_cons_of_eq _ _ _ compares, group_nil]
      refine ⟨(groupedFrom_pending ?_ ?_).1, ?_⟩
      · rw [compares]
        exact groupedFirst
      · rw [compares]
        exact groupedTail _ List.mem_cons_self
      · rw [items, Tail.items_cons, Tail.items, List.flatMap_nil,
          List.append_nil]

theorem grouped_ofOperands {first : Value} {tail : Tail}
    (simple : first.operator? = none) (simpleTail : tail.Simple)
    (once : tail.comparisons.length ≤ 1) :
    (ofOperands first tail).Grouped ∧
      (ofOperands first tail).items = first.items ++ tail.items := by
  have products :=
    groupedFrom_group .product (by decide) (groupedFrom_of_operand simple _)
    fun entry member => groupedFrom_of_operand (simpleTail entry member) _
  have sums :=
    groupedFrom_group .sum (by decide) (products.1.mono (by decide)) products.2
  rw [ofOperands_eq, ← items_groupSums]
  apply grouped_comparison sums.1 sums.2
  · intro entry member
    have inside : entry.1 ∈ tail.comparisons := by
      rw [← operators_groupSums first tail]
      exact List.mem_map_of_mem member
    exact of_decide_eq_true (List.mem_filter.mp inside).2
  · rw [← operators_groupSums first tail, List.length_map] at once
    exact once

/-! ### A grouped tree is found again -/

/-- Operators of the level go on with the tree that the operators before them
have made. -/
theorem group_append_of_done {level : Operator.Precedence} {first done : Value}
    {tail : Tail} (grouped : group level first tail = (done, []))
    (rest : Tail) :
    group level first (tail ++ rest) = group level done rest := by
  induction tail generalizing first with
  | nil =>
      cases grouped
      rfl
  | cons entry tail ih =>
      obtain ⟨op, operand⟩ := entry
      by_cases same : op.precedence = level
      · rw [group_cons_of_eq _ _ _ same] at grouped
        rw [List.cons_append, group_cons_of_eq _ _ _ same, ih grouped]
      · rw [group_cons_of_ne _ _ _ same] at grouped
        cases grouped

/-- An operator of another level stays, and its sides are grouped by
themselves. -/
theorem group_append_of_ne {level : Operator.Precedence} {op : Operator}
    (other : op.precedence ≠ level) (first operand : Value) (tail rest : Tail) :
    group level first (tail ++ (op, operand) :: rest) =
      ((group level first tail).1,
        (group level first tail).2 ++
          (op, (group level operand rest).1) ::
            (group level operand rest).2) := by
  induction tail generalizing first with
  | nil =>
      rw [List.nil_append, group_cons_of_ne _ _ _ other, group_nil,
        List.nil_append]
  | cons entry tail ih =>
      obtain ⟨inner, value⟩ := entry
      by_cases same : inner.precedence = level
      · rw [List.cons_append, group_cons_of_eq _ _ _ same,
          group_cons_of_eq _ _ _ same, ih]
      · rw [List.cons_append, group_cons_of_ne _ _ _ same,
          group_cons_of_ne _ _ _ same, ih, List.cons_append]

theorem row_of_operand {value : Value} (operand : value.operator? = none) :
    value.row = (value, []) := by
  cases value with
  | pending op left right => cases operand
  | literal | reference | settled => rfl

/-- The operands of a grouped operation. -/
theorem GroupedFrom.operands {rank : Nat} {op : Operator} {left right : Value}
    (grouped : (Value.pending op left right).GroupedFrom rank) :
    left.GroupedFrom (max 1 op.precedence.rank) ∧
    right.GroupedFrom (op.precedence.rank + 1) := by
  obtain ⟨⟨tightLeft, tightRight, groupedLeft, groupedRight⟩, _⟩ := grouped
  refine ⟨⟨groupedLeft, fun inner root => ?_⟩, groupedRight, tightRight⟩
  obtain ⟨arithmetic, tight⟩ := tightLeft inner root
  refine Nat.max_le.mpr ⟨?_, tight⟩
  cases level : inner.precedence with
  | comparison => exact absurd level arithmetic
  | sum | product => decide

theorem group_product_row {value : Value} (grouped : value.GroupedFrom 2) :
    group .product value.row.1 value.row.2 = (value, []) := by
  induction value with
  | literal | reference | settled => rfl
  | pending op left right ihLeft ihRight =>
      have level : op.precedence = .product := by
        have tight := grouped.2 op rfl
        cases level : op.precedence with
        | product => rfl
        | sum | comparison =>
            rw [level] at tight
            exact absurd tight (by decide)
      obtain ⟨groupedLeft, groupedRight⟩ := grouped.operands
      rw [level] at groupedLeft groupedRight
      have simple : right.operator? = none := by
        by_contra operation
        obtain ⟨inner, root⟩ := Option.ne_none_iff_exists'.mp operation
        have tooTight :=
          (groupedRight.2 inner root).trans inner.precedence.rank_le_two
        exact absurd tooTight (by decide)
      rw [row, row_of_operand simple, group_append_of_done (ihLeft groupedLeft),
        group_cons_of_eq _ _ _ level, group_nil]

theorem groupSums_row {value : Value} (grouped : value.GroupedFrom 1) :
    groupSums value.row.1 value.row.2 = (value, []) := by
  induction value with
  | literal | reference | settled => rfl
  | pending op left right ihLeft ihRight =>
      obtain ⟨groupedLeft, groupedRight⟩ := grouped.operands
      cases level : op.precedence with
      | comparison =>
          have tight := grouped.2 op rfl
          rw [level] at tight
          exact absurd tight (by decide)
      | product =>
          have tight : (Value.pending op left right).GroupedFrom 2 := by
            refine ⟨grouped.1, ?_⟩
            rintro _ ⟨⟩
            rw [level]
            exact Nat.le_refl _
          rw [groupSums, group_product_row tight, group_nil]
      | sum =>
          rw [level] at groupedLeft groupedRight
          have other : op.precedence ≠ .product := by simp [level]
          have before := ihLeft groupedLeft
          rw [groupSums] at before
          rw [groupSums, row, group_append_of_ne other,
            group_product_row groupedRight, group_append_of_done before,
            group_cons_of_eq _ _ _ level, group_nil]

/-- A grouped tree is free of comparisons, or compares two such trees. -/
theorem Grouped.sum_or_comparison {value : Value} (grouped : value.Grouped) :
    value.GroupedFrom 1 ∨
      ∃ op left right, value = .pending op left right ∧
        op.precedence = .comparison ∧
        left.GroupedFrom 1 ∧ right.GroupedFrom 1 := by
  cases value with
  | literal | reference | settled => exact .inl (groupedFrom_of_operand rfl 1)
  | pending op left right =>
      have whole : (Value.pending op left right).GroupedFrom 0 :=
        ⟨grouped, fun _ _ => Nat.zero_le _⟩
      obtain ⟨groupedLeft, groupedRight⟩ := whole.operands
      cases level : op.precedence with
      | comparison =>
          rw [level] at groupedLeft groupedRight
          exact .inr ⟨op, left, right, rfl, level, groupedLeft, groupedRight⟩
      | sum | product =>
          refine .inl ⟨grouped, ?_⟩
          rintro _ ⟨⟩
          rw [level]
          decide

/-- A grouped tree is what its operands in a row are grouped into. -/
theorem ofOperands_row {value : Value} (grouped : value.Grouped) :
    ofOperands value.row.1 value.row.2 = value := by
  rcases grouped.sum_or_comparison with sums |
    ⟨op, left, right, rfl, level, sumsLeft, sumsRight⟩
  · rw [ofOperands_eq, groupSums_row sums, group_nil]
  · have before := groupSums_row sumsLeft
    have after := groupSums_row sumsRight
    rw [groupSums] at before after
    rw [ofOperands_eq, groupSums, row, group_append_of_ne (by simp [level]),
      group_append_of_ne (by simp [level]), before, after, List.nil_append,
      group_cons_of_eq _ _ _ level, group_nil]

theorem Tail.comparisons_append (tail rest : Tail) :
    Tail.comparisons (tail ++ rest) = tail.comparisons ++ rest.comparisons := by
  simp [Tail.comparisons]

theorem Tail.length_comparisons_cons (op : Operator) (operand : Value)
    (tail : Tail) :
    (Tail.comparisons ((op, operand) :: tail)).length =
      tail.comparisons.length +
        (decide (op.precedence = .comparison)).toNat := by
  by_cases compares :
    op.precedence = .comparison <;> simp [Tail.comparisons, compares]

/-- There is no second comparison in a grouped tree. -/
theorem length_comparisons_row {value : Value} (grouped : value.Grouped) :
    (Tail.comparisons value.row.2).length ≤ 1 := by
  have none {value : Value} (sums : value.GroupedFrom 1) :
      Tail.comparisons value.row.2 = [] := by
    rw [← operators_groupSums value.row.1, groupSums_row sums, List.map_nil]
  rcases grouped.sum_or_comparison with sums |
    ⟨op, left, right, rfl, _, sumsLeft, sumsRight⟩
  · simp [none sums]
  · rw [row, Tail.comparisons_append, none sumsLeft, List.nil_append,
      Tail.length_comparisons_cons, none sumsRight, List.length_nil,
      Nat.zero_add]
    exact Bool.toNat_le _

/-! ### Reading tokens -/

variable {declared : String → Bool}

theorem operator?_of_ofWord {text : List Char} {value : Value}
    (read : ofWord declared text = .ok value) : value.operator? = none := by
  unfold ofWord ofName at read
  split at read
  · cases read
  · cases read
    rfl
  · dsimp only at read
    split at read
    · split at read
      · cases read
        rfl
      · cases read
    · cases read

section Inversion

variable {malformed : ValueFault} {compared : Bool} {tokens : List Token}

theorem readOperand_eq_ok {first : Value} {tail : Tail} :
    readOperand declared malformed compared tokens = .ok (first, tail) ↔
      ∃ text rest, tokens = .word text :: rest ∧
        ofWord declared text = .ok first ∧
        readTail declared malformed compared rest = .ok tail := by
  constructor
  · intro read
    cases tokens with
    | nil => cases read
    | cons token rest =>
        cases token with
        | operator op => cases read
        | word text =>
            unfold readOperand at read
            split at read
            · cases read
            · next word =>
                split at read
                · cases read
                · next after =>
                    cases read
                    exact ⟨text, rest, rfl, word, after⟩
  · rintro ⟨text, rest, rfl, word, after⟩
    rw [readOperand, word]
    dsimp only
    rw [after]

theorem readTail_eq_ok_nil :
    readTail declared malformed compared tokens = .ok [] ↔ tokens = [] := by
  constructor
  · intro read
    cases tokens with
    | nil => rfl
    | cons token rest =>
        cases token with
        | word text => cases read
        | operator op =>
            unfold readTail at read
            dsimp only at read
            split at read
            · cases read
            · split at read <;> cases read
  · rintro rfl
    rfl

theorem readTail_eq_ok_cons {op : Operator} {operand : Value} {tail : Tail} :
    readTail declared malformed compared tokens = .ok ((op, operand) :: tail) ↔
      ∃ rest, tokens = .operator op :: rest ∧
        (compared && decide (op.precedence = .comparison)) = false ∧
        readOperand declared malformed
          (compared || decide (op.precedence = .comparison)) rest =
          .ok (operand, tail) := by
  constructor
  · intro read
    cases tokens with
    | nil => cases read
    | cons token rest =>
        cases token with
        | word text => cases read
        | operator op =>
            unfold readTail at read
            dsimp only at read
            split at read
            · cases read
            · next once =>
                split at read
                · cases read
                · next after =>
                    cases read
                    exact ⟨rest, rfl, by simpa using once, after⟩
  · rintro ⟨rest, rfl, once, after⟩
    rw [readTail, once, after]
    rfl

end Inversion

theorem items_of_operand {value : Value} (operand : value.operator? = none) :
    value.items = [.operand value] := by
  cases value with
  | pending op left right => cases operand
  | literal | reference | settled => rfl

theorem simple_cons {op : Operator} {operand : Value} {tail : Tail} :
    Tail.Simple ((op, operand) :: tail) ↔ operand.operator? = none ∧
    tail.Simple :=
  List.forall_mem_cons

theorem toNat_or_of_and {first second : Bool}
    (apart : (first && second) = false) :
    (first || second).toNat = second.toNat + first.toNat := by
  cases first <;> cases second <;> first | rfl | cases apart

theorem and_eq_false_of_toNat {first second : Bool}
    (once : second.toNat + first.toNat ≤ 1) :
    (first && second) = false := by
  cases first <;> cases second <;> first | rfl | exact absurd once (by decide)

/-- Each word among the tokens is read as a single operand. -/
def SingleWords (declared : String → Bool) (tokens : List Token) : Prop :=
  ∀ text, .word text ∈ tokens → parse declared text = ofWord declared text

theorem SingleWords.tail {token : Token} {tokens : List Token}
    (words : SingleWords declared (token :: tokens)) :
    SingleWords declared tokens :=
  fun text member => words text (List.mem_cons_of_mem _ member)

/-- The tokens are written for operands without operators of their own, with an
operator before each and no second comparison. -/
structure Tail.ReadFrom (declared : String → Bool) (compared : Bool)
    (tokens : List Token) (tail : Tail) : Prop where
  simple : tail.Simple
  written : List.Forall₂ (Writes declared) tokens tail.items
  once : tail.comparisons.length + compared.toNat ≤ 1

variable {malformed : ValueFault}

theorem readOperand_eq_ok_iff {tail : Tail}
    (readTail_iff : ∀ {compared tokens}, SingleWords declared tokens →
      (readTail declared malformed compared tokens = .ok tail ↔
        tail.ReadFrom declared compared tokens))
    {compared : Bool} {tokens : List Token}
    (words : SingleWords declared tokens) {first : Value} :
    readOperand declared malformed compared tokens = .ok (first, tail) ↔
      first.operator? = none ∧ tail.Simple ∧
        List.Forall₂ (Writes declared) tokens (first.items ++ tail.items) ∧
        tail.comparisons.length + compared.toNat ≤ 1 := by
  rw [readOperand_eq_ok]
  constructor
  · rintro ⟨text, rest, rfl, word, after⟩
    obtain ⟨simpleTail, written, once⟩ := (readTail_iff words.tail).mp after
    have simple := operator?_of_ofWord word
    rw [items_of_operand simple]
    rw [← words text List.mem_cons_self] at word
    exact ⟨simple, simpleTail, .cons (.operand word) written, once⟩
  · rintro ⟨simple, simpleTail, written, once⟩
    rw [items_of_operand simple] at written
    obtain ⟨_, rest, ⟨word⟩, later, rfl⟩ :=
      List.forall₂_cons_right_iff.mp written
    rw [words _ List.mem_cons_self] at word
    exact ⟨_, rest, rfl, word,
      (readTail_iff words.tail).mpr ⟨simpleTail, later, once⟩⟩

theorem readTail_eq_ok_iff (tail : Tail) {compared : Bool} {tokens : List Token}
    (words : SingleWords declared tokens) :
    readTail declared malformed compared tokens = .ok tail ↔
      tail.ReadFrom declared compared tokens := by
  induction tail generalizing compared tokens with
  | nil =>
      rw [readTail_eq_ok_nil]
      constructor
      · rintro rfl
        exact ⟨by simp [Tail.Simple], .nil, by cases compared <;> decide⟩
      · intro read
        exact List.forall₂_nil_right_iff.mp read.written
  | cons entry tail ih =>
      obtain ⟨op, operand⟩ := entry
      rw [readTail_eq_ok_cons]
      constructor
      · rintro ⟨rest, rfl, apart, read⟩
        obtain ⟨simple, simpleTail, written, once⟩ :=
          (readOperand_eq_ok_iff ih words.tail).mp read
        refine ⟨simple_cons.mpr ⟨simple, simpleTail⟩,
          .cons (.operator op) written, ?_⟩
        rw [toNat_or_of_and apart] at once
        rw [Tail.length_comparisons_cons]
        omega
      · rintro ⟨simple, written, once⟩
        obtain ⟨simple, simpleTail⟩ := simple_cons.mp simple
        rw [Tail.items_cons] at written
        obtain ⟨_, rest, ⟨_⟩, later, rfl⟩ :=
          List.forall₂_cons_right_iff.mp written
        rw [Tail.length_comparisons_cons] at once
        have apart :
            (compared && decide (op.precedence = .comparison)) = false :=
          and_eq_false_of_toNat (by omega)
        refine ⟨rest, rfl, apart, (readOperand_eq_ok_iff ih words.tail).mpr ?_⟩
        rw [toNat_or_of_and apart]
        exact ⟨simple, simpleTail, later, by omega⟩

/-! ### Expressions -/

theorem items_row (value : Value) :
    value.items = value.row.1.items ++ Tail.items value.row.2 := by
  induction value with
  | literal | reference | settled => rfl
  | pending op left right ihLeft ihRight =>
      rw [items, row, Tail.items_append, Tail.items_cons, ← List.append_assoc,
        ← ihLeft, List.cons_append, ← ihRight]

theorem simple_row (value : Value) :
    value.row.1.operator? = none ∧ Tail.Simple value.row.2 := by
  induction value with
  | literal | reference | settled => exact ⟨rfl, by simp [Tail.Simple, row]⟩
  | pending op left right ihLeft ihRight =>
      refine ⟨ihLeft.1, ?_⟩
      exact List.forall_mem_append.mpr ⟨ihLeft.2, simple_cons.mpr ihRight⟩

theorem ofTokens_eq_ok_iff {text : List Char} {tokens : List Token}
    (words : SingleWords declared tokens) {value : Value} :
    ofTokens declared text tokens = .ok value ↔
      value.Grouped ∧ List.Forall₂ (Writes declared) tokens value.items := by
  unfold ofTokens
  constructor
  · intro read
    split at read
    · cases read
    · next first tail operands =>
        cases read
        obtain ⟨simple, simpleTail, written, once⟩ :=
          (readOperand_eq_ok_iff (fun words => readTail_eq_ok_iff tail words)
            words).mp operands
        obtain ⟨grouped, items⟩ := grouped_ofOperands simple simpleTail once
        rw [items]
        exact ⟨grouped, written⟩
  · rintro ⟨grouped, written⟩
    rw [items_row] at written
    obtain ⟨simple, simpleTail⟩ := simple_row value
    have operands :
        readOperand declared (.unrecognised (String.ofList text)) false tokens =
          .ok value.row :=
      (readOperand_eq_ok_iff (fun words => readTail_eq_ok_iff value.row.2 words)
        words).mpr
        ⟨simple, simpleTail, written, length_comparisons_row grouped⟩
    rw [operands]
    exact congrArg Except.ok (ofOperands_row grouped)

/-! ### Alternating tokens -/

theorem alternating_of_written {first : Value} {tail : Tail}
    (simple : first.operator? = none) (simpleTail : tail.Simple)
    {tokens : List Token}
    (written :
      List.Forall₂ (Writes declared) tokens (first.items ++ tail.items)) :
    Token.Alternating tokens ∧ tokens.countP Token.isComparison =
      tail.comparisons.length ∧
      ∀ word, .word word ∈ tokens → ∃ operand,
        parse declared word = .ok operand := by
  induction tail generalizing tokens first with
  | nil =>
      rw [items_of_operand simple] at written
      obtain ⟨_, _, ⟨read⟩, ⟨⟩, rfl⟩ := List.forall₂_cons_right_iff.mp written
      refine ⟨trivial, rfl, ?_⟩
      intro word member
      cases List.mem_singleton.mp member
      exact ⟨first, read⟩
  | cons entry tail ih =>
      obtain ⟨op, operand⟩ := entry
      obtain ⟨simpleOperand, simpleTail⟩ := simple_cons.mp simpleTail
      rw [items_of_operand simple, Tail.items_cons] at written
      obtain ⟨_, _, ⟨read⟩, fromOperator, rfl⟩ :=
        List.forall₂_cons_right_iff.mp written
      obtain ⟨_, rest, ⟨_⟩, later, rfl⟩ :=
        List.forall₂_cons_right_iff.mp fromOperator
      obtain ⟨alternating, count, words⟩ := ih simpleOperand simpleTail later
      refine ⟨alternating, ?_, ?_⟩
      · rw [Tail.length_comparisons_cons, ← count, List.countP_cons,
          List.countP_cons, Token.isComparison_operator]
        by_cases compares :
          op.precedence = .comparison <;> simp [compares, Token.isComparison]
      · intro word member
        rcases List.mem_cons.mp member with same | member
        · cases same
          exact ⟨first, read⟩
        · rcases List.mem_cons.mp member with same | member
          · cases same
          · exact words word member

theorem exists_written {tokens : List Token}
    (alternating : Token.Alternating tokens)
    (single : SingleWords declared tokens)
    (words : ∀ word, .word word ∈ tokens → ∃ operand,
      parse declared word = .ok operand) :
    ∃ (first : Value) (tail : Tail), first.operator? = none ∧ tail.Simple ∧
      List.Forall₂ (Writes declared) tokens (first.items ++ tail.items) := by
  fun_induction Token.Alternating tokens with
  | case1 text =>
      obtain ⟨operand, read⟩ := words text List.mem_cons_self
      have simple : operand.operator? = none :=
        operator?_of_ofWord ((single text List.mem_cons_self).symm.trans read)
      refine ⟨operand, [], simple, by simp [Tail.Simple], ?_⟩
      rw [items_of_operand simple]
      exact .cons (.operand read) .nil
  | case2 text op rest ih =>
      obtain ⟨operand, read⟩ := words text List.mem_cons_self
      have simple : operand.operator? = none :=
        operator?_of_ofWord ((single text List.mem_cons_self).symm.trans read)
      obtain ⟨second, tail, simpleSecond, simpleTail, written⟩ :=
        ih alternating single.tail.tail
        fun word member => words word (by simp [member])
      refine ⟨operand, (op, second) :: tail, simple,
        simple_cons.mpr ⟨simpleSecond, simpleTail⟩, ?_⟩
      rw [items_of_operand simple]
      exact .cons (.operand read) (.cons (.operator op) written)
  | case3 => exact alternating.elim

/-- A word that a text can have is read as a single operand. -/
theorem parse_of_wordAt {text : List Char} (word : Token.WordAt true text) :
    parse declared text = ofWord declared text := by
  have trimmed := Text.trim_of_free (Token.isBlank_of_wordAt word)
  unfold parse ofWord
  rw [trimmed]
  dsimp only
  rw [Token.scan_of_wordAt word]
  rfl

theorem singleWords_of_scanned {tokens : List Token}
    (scanned : ∀ token ∈ tokens, ∃ source, token ∈ Token.scan source) :
    SingleWords declared tokens := by
  intro text member
  obtain ⟨source, found⟩ := scanned _ member
  exact parse_of_wordAt (Token.wordAt_of_mem_scan found)

theorem exists_ofTokens_iff {text : List Char} {tokens : List Token}
    (single : SingleWords declared tokens) :
    (∃ value, ofTokens declared text tokens = .ok value) ↔
      Token.Alternating tokens ∧ tokens.countP Token.isComparison ≤ 1 ∧
        ∀ word, .word word ∈ tokens → ∃ operand,
          parse declared word = .ok operand := by
  constructor
  · rintro ⟨value, read⟩
    obtain ⟨grouped, written⟩ := (ofTokens_eq_ok_iff single).mp read
    obtain ⟨simple, simpleTail⟩ := simple_row value
    rw [items_row] at written
    obtain ⟨alternating, count, words⟩ :=
      alternating_of_written simple simpleTail written
    exact ⟨alternating, count ▸ length_comparisons_row grouped, words⟩
  · rintro ⟨alternating, once, words⟩
    obtain ⟨first, tail, simple, simpleTail, written⟩ :=
      exists_written alternating single words
    rw [(alternating_of_written simple simpleTail written).2.1] at once
    obtain ⟨grouped, items⟩ := grouped_ofOperands simple simpleTail once
    rw [← items] at written
    exact ⟨_, (ofTokens_eq_ok_iff single).mpr ⟨grouped, written⟩⟩

/-- The tokens of an expression are read exactly if they alternate, with an
operand first and last, if there is at most one comparison among them, and if
each operand can be read by itself.  The outcome is a tree that has these
operands and operators from left to right and is grouped by precedence, and
there is no other such tree. -/
theorem ofTokens_follows_grammar (declared : String → Bool) (text : List Char)
    {tokens : List Token}
    (scanned : ∀ token ∈ tokens, ∃ source, token ∈ Token.scan source) :
    ((∃ value, ofTokens declared text tokens = .ok value) ↔
      Token.Alternating tokens ∧ tokens.countP Token.isComparison ≤ 1 ∧
        ∀ word, .word word ∈ tokens → ∃ operand,
          parse declared word = .ok operand) ∧
    ∀ value, ofTokens declared text tokens = .ok value ↔
      value.Grouped ∧ List.Forall₂ (Writes declared) tokens value.items :=
  have single := singleWords_of_scanned scanned
  ⟨exists_ofTokens_iff single, fun _ => ofTokens_eq_ok_iff single⟩

/-- A sum that starts with a negative number is compared with a product. -/
theorem ofTokens_follows_grammar_levels :
    let declared : String → Bool := fun name => name == "x"
    let text := ['-', '1', '-', 'x', '*', '2', '-', '3', '>', 'x', '/', '4']
    let number (n : Int64) : Value := .literal (.int n)
    let value : Value :=
      .pending (.comparison .greater)
        (.pending (.arithmetic .subtract)
          (.pending (.arithmetic .subtract) (number (-1))
            (.pending (.arithmetic .multiply) (.reference "x") (number 2)))
          (number 3))
        (.pending (.arithmetic .divide) (.reference "x") (number 4))
    (∀ token ∈ Token.scan text, ∃ source, token ∈ Token.scan source) ∧
    ofTokens declared text (Token.scan text) = .ok value ∧
    value.Grouped ∧ List.Forall₂ (Writes declared)
      (Token.scan text) value.items ∧
    Token.Alternating (Token.scan text) := by
  intro declared text number value
  have scanned :
      ∀ token ∈ Token.scan text, ∃ source, token ∈ Token.scan source :=
    fun token member => ⟨text, member⟩
  have read : ofTokens declared text (Token.scan text) = .ok value := rfl
  obtain ⟨grouped, written⟩ :=
    ((ofTokens_follows_grammar declared text scanned).2 value).mp read
  have accepted :=
    (ofTokens_follows_grammar declared text scanned).1.mp ⟨value, read⟩
  exact ⟨scanned, read, grouped, written, accepted.1⟩

end Value

end PenScript
