import PenScript.Proofs.Termination

/-!
# Loops as rounds of their bodies

A loop that counts has one round for each value of an arithmetic progression,
which is fixed when the loop is entered.  A loop with a guard goes on as long as
the guard holds, and is cut off when its rounds are used up.  Both end early if
their body fails or returns.
-/

namespace PenScript.Execution

open Stateful
open State (CountedSteps CountedReaches)

/-- Rounds that all go on, from the machine at the entry of a loop.  `Goes`
tells how the round with a number, counted from zero, leads from one machine to
the next. -/
inductive Rounds (Goes : Nat → Machine → Machine → Prop) (entry : Machine) :
    Nat → Machine → Prop where
  | none : Rounds Goes entry 0 entry
  | more {number : Nat} {before after : Machine}
      (earlier : Rounds Goes entry number before)
      (goes : Goes number before after) : Rounds Goes entry (number + 1) after

/-- A body that fails or returns ends its loop in the same way. -/
theorem bind_of_stops {body : Execution Flow} {machine : Machine}
    (stops : ∀ after, body machine ≠ .ok .next after)
    {next : Flow → Execution Flow} (returns : next .ret = pure .ret) :
    (body >>= next) machine = body machine := by
  cases ended : body machine with
  | error failure after => exact bind_of_error ended
  | ok flow after =>
      cases flow with
      | next => exact absurd ended (stops after)
      | ret =>
          rw [bind_of_ok ended, returns]
          rfl

/-! ### Arithmetic progressions -/

namespace Range

/-- The number of values in a range: none if the start has passed the end
already, and otherwise one more than the steps that fit between the two. -/
def count (range : Range) : Nat :=
  if 0 < range.step ∧ range.stop < range.start ∨
    range.step < 0 ∧ range.start < range.stop then 0
  else ((range.stop - range.start).fdiv range.step).toNat + 1

def valueAt (range : Range) (number : Nat) : Int :=
  range.start + number * range.step

variable {range : Range}

theorem valueAt_succ (number : Nat) :
    range.valueAt (number + 1) = range.valueAt number + range.step := by
  rw [valueAt, valueAt, Int.natCast_add, Int.add_mul, Int.add_assoc]
  simp

theorem covers_iff_of_pos (ascends : 0 < range.step) {value : Int} :
    range.covers value = true ↔ value ≤ range.stop := by
  simp only [covers, Bool.or_eq_true, Bool.and_eq_true, decide_eq_true_eq]
  omega

theorem covers_iff_of_neg (descends : range.step < 0) {value : Int} :
    range.covers value = true ↔ range.stop ≤ value := by
  simp only [covers, Bool.or_eq_true, Bool.and_eq_true, decide_eq_true_eq]
  omega

/-- The steps that fit into a distance are counted by rounding the quotient
down. -/
theorem lt_count_iff {number : Nat} {distance stride : Int}
    (positive : 0 < stride) :
    number < (if distance < 0 then 0 else (distance.fdiv stride).toNat + 1) ↔
      number * stride ≤ distance := by
  have fits (steps : Int) :
      steps ≤ distance.fdiv stride ↔ steps * stride ≤ distance := by
    rw [Int.fdiv_eq_ediv_of_nonneg distance positive.le,
      Int.le_ediv_iff_mul_le positive]
  have forwards : 0 ≤ number * stride :=
    Int.mul_nonneg (Int.natCast_nonneg number) positive.le
  split
  · omega
  · have whole : 0 ≤ distance.fdiv stride := (fits 0).mpr (by omega)
    rw [← fits]
    omega

/-- The values that a range covers are the first ones of its progression. -/
theorem covers_valueAt_iff (moves : range.step ≠ 0) {number : Nat} :
    range.covers (range.valueAt number) = true ↔ number < range.count := by
  rcases Int.lt_or_gt_of_ne moves with descends | ascends
  · have counted : range.count = if range.start - range.stop < 0 then 0
        else ((range.start - range.stop).fdiv (-range.step)).toNat + 1 := by
      rw [count, ← Int.neg_fdiv_neg, Int.neg_sub]
      exact if_congr (by omega) rfl rfl
    rw [covers_iff_of_neg descends, counted, lt_count_iff (by omega), valueAt,
      Int.mul_neg]
    omega
  · have counted : range.count = if range.stop - range.start < 0 then 0
        else ((range.stop - range.start).fdiv range.step).toNat + 1 := by
      rw [count]
      exact if_congr (by omega) rfl rfl
    rw [covers_iff_of_pos ascends, counted, lt_count_iff ascends, valueAt]
    omega

/-- A covered value of the progression lies between the ends of the range. -/
theorem valueAt_between (moves : range.step ≠ 0) {number : Nat}
    (within : number < range.count) :
    range.start ≤ range.valueAt number ∧ range.valueAt number ≤ range.stop ∨
      range.stop ≤ range.valueAt number ∧
      range.valueAt number ≤ range.start := by
  have covered := (covers_valueAt_iff moves).mpr within
  have natural := Int.natCast_nonneg number
  rcases Int.lt_or_gt_of_ne moves with descends | ascends
  · have backwards :=
      Int.mul_nonneg natural (Int.neg_nonneg_of_nonpos descends.le)
    rw [Int.mul_neg] at backwards
    rw [covers_iff_of_neg descends] at covered
    rw [valueAt] at covered ⊢
    omega
  · have forwards := Int.mul_nonneg natural ascends.le
    rw [covers_iff_of_pos ascends] at covered
    rw [valueAt] at covered ⊢
    omega

/-- No more values lie in a range than integers. -/
theorem count_le (moves : range.step ≠ 0) :
    range.count ≤ (range.stop - range.start).natAbs + 1 := by
  by_contra more
  have between := valueAt_between moves (Nat.lt_of_not_le more)
  have spread (number : Nat) : number ≤ (number * range.step).natAbs := by
    rw [Int.natAbs_mul, Int.natAbs_natCast]
    exact Nat.le_mul_of_pos_right number (Int.natAbs_pos.mpr moves)
  have far := spread ((range.stop - range.start).natAbs + 1)
  rw [valueAt] at between
  omega

/-- Between machine integers, every value of the progression is one. -/
theorem toInt_valueAt {first last : Int64} (starts : range.start = first.toInt)
    (ends : range.stop = last.toInt) (moves : range.step ≠ 0) {number : Nat}
    (within : number < range.count) :
    (Int64.ofInt (range.valueAt number)).toInt = range.valueAt number := by
  have between := valueAt_between moves within
  have firstAbove := Int64.minValue_le_toInt first
  have firstBelow := Int64.toInt_le first
  have lastAbove := Int64.minValue_le_toInt last
  have lastBelow := Int64.toInt_le last
  rw [Int64.toInt_minValue] at firstAbove lastAbove
  rw [Int64.toInt_maxValue] at firstBelow lastBelow
  apply Int64.toInt_ofInt_of_le <;> omega

end Range

/-! ### Counting loops -/

/-- The bounds of a counting loop as they are given; the step is one if it is
left out. -/
def readBounds (start stop : Value) (step : Option Value) :
    Value.Reading (Int64 × Int64 × Int64) := do
  let first ← start.readInt
  let last ← stop.readInt
  match step with
  | some step => return (first, last, ← step.readInt)
  | none => return (first, last, 1)

theorem readRange_of_readBounds {start stop : Value} {step : Option Value}
    {store final : Store} {first last stride : Int64}
    (read : readBounds start stop step store = .ok (first, last, stride) final)
    (moves : stride ≠ 0) :
    readRange start stop step store =
      .ok ⟨first.toInt, last.toInt, stride.toInt⟩ final := by
  obtain ⟨_, middle, readStart, readRest⟩ := bind_eq_ok_iff.mp read
  obtain ⟨_, later, readStop, readStep⟩ := bind_eq_ok_iff.mp readRest
  rw [readRange, bind_of_ok readStart, bind_of_ok readStop]
  cases step with
  | none =>
      cases readStep
      rfl
  | some step =>
      obtain ⟨given, _, readGiven, returned⟩ := bind_eq_ok_iff.mp readStep
      cases returned
      dsimp only
      rw [bind_of_ok readGiven, if_neg moves]
      rfl

section Counting

variable {counter : String} {range : Range} {body : Execution Flow}

/-- The machine with the counter of a loop set. -/
def countedAt (counter : String) (value : Int64) (machine : Machine) :
    Machine :=
  { machine with store := machine.store.set counter (.literal (.int value)) }

/-- A round of a counting loop that goes on: the counter is set to its value in
the progression, and the body is carried out. -/
def CountingRound (counter : String) (range : Range) (body : Execution Flow)
    (number : Nat) (before after : Machine) : Prop :=
  ∃ value : Int64, value.toInt = range.start + number * range.step ∧
    body (countedAt counter value before) = .ok .next after

/-- How a counting loop ends: with its last round, or earlier with a round that
fails or returns. -/
inductive Counts (counter : String) (range : Range) (body : Execution Flow)
    (entry : Machine) :
    EStateM.Result Failure Machine Flow → Prop where
  | finished {final : Machine}
      (rounds :
        Rounds (CountingRound counter range body) entry range.count final) :
      Counts counter range body entry (.ok .next final)
  | stopped {number : Nat} {before : Machine} {value : Int64}
      (rounds : Rounds (CountingRound counter range body) entry number before)
      (within : number < range.count)
      (exact : value.toInt = range.start + number * range.step)
      (stops :
        ∀ after, body (countedAt counter value before) ≠ .ok .next after) :
      Counts counter range body entry (body (countedAt counter value before))

theorem setCounter_valueAt {number : Nat} {value : Int64}
    (exact : value.toInt = range.start + number * range.step)
    (machine : Machine) :
    setCounter counter (range.valueAt number) machine =
      .ok () (countedAt counter value machine) := by
  rw [Range.valueAt, ← exact, setCounter, Int64.ofInt_toInt]
  rfl

/-- Behind rounds that are over, the loop goes on with the next value. -/
theorem forLoop_of_rounds (moves : range.step ≠ 0) {entry before : Machine}
    {number : Nat}
    (rounds : Rounds (CountingRound counter range body) entry number before)
    (within : number ≤ range.count) (fuel : Nat) :
    forLoop range (fun value => do setCounter counter value; body)
      (number + fuel) range.start entry =
      forLoop range (fun value => do setCounter counter value; body) fuel
        (range.valueAt number) before := by
  induction rounds generalizing fuel with
  | none => simp [Range.valueAt]
  | @more number before after earlier goes ih =>
      obtain ⟨value, exact, outcome⟩ := goes
      have covered := (Range.covers_valueAt_iff moves).mpr within
      rw [Nat.succ_add_eq_add_succ, ih (Nat.le_of_succ_le within), forLoop,
        if_pos covered, bind_assoc,
        bind_of_ok (setCounter_valueAt exact before), bind_of_ok outcome]
      rw [Range.valueAt_succ]

/-- A counting loop ends in the way that its rounds tell, before the bound on
them is met. -/
theorem forLoop_of_counts (moves : range.step ≠ 0) {entry : Machine}
    {outcome : EStateM.Result Failure Machine Flow}
    (counts : Counts counter range body entry outcome) :
    forLoop range (fun value => do setCounter counter value; body)
      ((range.stop - range.start).natAbs + 1) range.start entry = outcome := by
  have enough := range.count_le moves
  cases counts with
  | finished rounds =>
      obtain ⟨fuel, total⟩ := Nat.exists_eq_add_of_le enough
      have passed : range.covers (range.valueAt range.count) = false := by
        rw [← Bool.not_eq_true, Range.covers_valueAt_iff moves]
        exact Nat.lt_irrefl _
      rw [total, forLoop_of_rounds moves rounds (Nat.le_refl _),
        forLoop_of_not_covers passed]
      rfl
  | @stopped number before value rounds within exact stops =>
      obtain ⟨fuel, total⟩ :=
        Nat.exists_eq_add_of_le (Nat.lt_of_lt_of_le within enough)
      have covered := (Range.covers_valueAt_iff moves).mpr within
      rw [total, Nat.succ_add_eq_add_succ,
        forLoop_of_rounds moves rounds within.le, forLoop, if_pos covered,
        bind_assoc, bind_of_ok (setCounter_valueAt exact before)]
      exact bind_of_stops stops rfl

/-- Each round either goes on or is the last one. -/
theorem exists_counts (counter : String) (body : Execution Flow)
    {first last : Int64} (starts : range.start = first.toInt)
    (ends : range.stop = last.toInt) (moves : range.step ≠ 0)
    (entry : Machine) :
    ∃ outcome, Counts counter range body entry outcome := by
  have upTo (number : Nat) (within : number ≤ range.count) :
      (∃ before,
        Rounds (CountingRound counter range body) entry number before) ∨
        ∃ outcome, Counts counter range body entry outcome := by
    induction number with
    | zero => exact .inl ⟨entry, .none⟩
    | succ number ih =>
        rcases ih (Nat.le_of_succ_le within) with ⟨before, rounds⟩ | ended
        · have exact := Range.toInt_valueAt starts ends moves within
          by_cases goes : ∃ after,
              body
                (countedAt counter (Int64.ofInt (range.valueAt number))
                  before) = .ok .next after
          · obtain ⟨after, outcome⟩ := goes
            exact .inl ⟨after, rounds.more ⟨_, exact, outcome⟩⟩
          · exact .inr ⟨_, .stopped rounds within exact fun after outcome =>
              goes ⟨after, outcome⟩⟩
        · exact .inr ended
  rcases upTo range.count (Nat.le_refl _) with ⟨final, rounds⟩ | ended
  · exact ⟨_, .finished rounds⟩
  · exact ended

/-- Where every round goes on, the loop has all of them. -/
theorem Counts.all_rounds {entry : Machine}
    {outcome : EStateM.Result Failure Machine Flow}
    (counts : Counts counter range body entry outcome)
    (goOn : ∀ number before, number < range.count →
      Rounds (CountingRound counter range body) entry number before →
        ∃ after, CountingRound counter range body number before after) :
    ∃ final, Rounds (CountingRound counter range body) entry range.count final ∧
      outcome = .ok .next final := by
  cases counts with
  | finished rounds => exact ⟨_, rounds, rfl⟩
  | stopped rounds within exact stops =>
      obtain ⟨after, value, same, outcome⟩ := goOn _ _ within rounds
      cases Int64.toInt_inj.mp (same.trans exact.symm)
      exact absurd outcome (stops after)

end Counting

/-- A counting loop visits its arithmetic progression.  The bounds are the
machine integers that are read at the entry, and the step is not zero.  As long
as no round fails or returns, there are `Range.count` rounds; before the round
with a number, the counter is set to the start plus that many steps, whatever
has become of it.  A round that fails or returns is the last one, and the loop
ends as it does. -/
theorem for_visits_progression (limits : Limits)
    (call : String → Nat → Execution Unit) (counter : String)
    {start stop : Value} {step : Option Value} (line : Nat) (body : List Node)
    {machine : Machine} {store : Store} {first last stride : Int64}
    (read :
      readBounds start stop step machine.store =
        .ok (first, last, stride) store) (moves : stride ≠ 0) :
    let range : Range := ⟨first.toInt, last.toInt, stride.toInt⟩
    let entry : Machine := { machine with store }
    let round := CountingRound counter range (runNodes limits call body)
    let loop :=
      runNode limits call (.block (.forRange counter start stop step) line body)
    ((∀ number before, number < range.count → Rounds round entry number before →
        ∃ after, round number before after) →
      ∃ final, Rounds round entry range.count final ∧
        loop machine = .ok .next final) ∧
    ∀ outcome, loop machine = outcome ↔
      Counts counter range (runNodes limits call body) entry outcome := by
  intro range entry round loop
  have nonzero : stride.toInt ≠ 0 := by
    rw [← Int64.toInt_zero]
    exact fun same => moves (Int64.toInt_inj.mp same)
  have entered :
      reading (.forRange counter start stop step) line
        (readRange start stop step) machine = .ok range entry := by
    rw [reading, readRange_of_readBounds read moves]
  have looped {outcome : EStateM.Result Failure Machine Flow}
      (counts : Counts counter range (runNodes limits call body) entry outcome) :
      loop machine = outcome := by
    dsimp only [loop]
    rw [runNode, bind_of_ok entered]
    exact forLoop_of_counts nonzero counts
  have counts :
      Counts counter range (runNodes limits call body) entry
        (loop machine) := by
    have starts : range.start = first.toInt := rfl
    obtain ⟨outcome, counts⟩ :=
      exists_counts counter (runNodes limits call body) starts rfl nonzero entry
    rwa [looped counts]
  refine ⟨counts.all_rounds, fun outcome => ⟨?_, looped⟩⟩
  rintro rfl
  exact counts

/-- A loop to the greatest machine integer, with a step that leads past it.  Its
body draws a line to the counter and then sets the counter to zero. -/
theorem for_visits_progression_to_greatest :
    let start : Value := .literal (.int 9223372036854775804)
    let stop : Value := .literal (.int 9223372036854775807)
    let step : Option Value := some (.literal (.int 2))
    let body : List Node :=
      [.leaf (.lineTo (.reference "i") (.literal (.int 0))) 2,
        .leaf (.assign "i" (.literal (.int 0))) 3]
    let call := callProcedure ⟨0, 0⟩ [] 0
    let machine : Machine := ⟨#[], .empty⟩
    let range : Range := ⟨9223372036854775804, 9223372036854775807, 2⟩
    let outcome :=
      runNode ⟨0, 0⟩ call (.block (.forRange "i" start stop step) 1 body)
        machine
    readBounds start stop step machine.store =
      .ok (9223372036854775804, 9223372036854775807, 2) .empty ∧
      (2 : Int64) ≠ 0 ∧
    range.count = 2 ∧
    Counts "i" range (runNodes ⟨0, 0⟩ call body) machine outcome ∧
    (finalState outcome).canvas =
      #[.lineTo 9223372036854775804 0, .lineTo 9223372036854775806 0] := by
  intro start stop step body call machine range outcome
  have read : readBounds start stop step machine.store =
      .ok (9223372036854775804, 9223372036854775807, 2) .empty := rfl
  have moves : (2 : Int64) ≠ 0 := by decide
  have visits := for_visits_progression ⟨0, 0⟩ call "i" 1 body read moves
  exact ⟨read, moves, by decide, (visits.2 outcome).mp rfl, by decide +kernel⟩

/-! ### Loops with a guard -/

section Guarded

variable {check : Execution Bool} {body : Execution Flow} {overrun : Failure}

/-- A round that goes on: the guard holds, and the body is carried out. -/
def GuardedRound (check : Execution Bool) (body : Execution Flow)
    (before after : Machine) : Prop :=
  ∃ checked, check before = .ok true checked ∧ body checked = .ok .next after

/-- How a loop ends that goes on while its guard holds, and is cut off after
`cap` rounds. -/
inductive RunsCapped (check : Execution Bool) (body : Execution Flow)
    (overrun : Failure) (cap : Nat) (entry : Machine) :
    EStateM.Result Failure Machine Flow → Prop where
  /-- The guard does not hold any more. -/
  | finished {number : Nat} {state final : Machine}
      (rounds : Rounds (fun _ => GuardedRound check body) entry number state)
      (within : number ≤ cap) (checked : check state = .ok false final) :
      RunsCapped check body overrun cap entry (.ok .next final)
  /-- The guard holds, but no round is left. -/
  | cutOff {state final : Machine}
      (rounds : Rounds (fun _ => GuardedRound check body) entry cap state)
      (checked : check state = .ok true final) :
      RunsCapped check body overrun cap entry (.error overrun final)
  | guardFailed {number : Nat} {state final : Machine} {failure : Failure}
      (rounds : Rounds (fun _ => GuardedRound check body) entry number state)
      (within : number ≤ cap) (checked : check state = .error failure final) :
      RunsCapped check body overrun cap entry (.error failure final)
  /-- The body fails or returns. -/
  | stopped {number : Nat} {state middle : Machine}
      (rounds : Rounds (fun _ => GuardedRound check body) entry number state)
      (within : number < cap) (checked : check state = .ok true middle)
      (stops : ∀ after, body middle ≠ .ok .next after) :
      RunsCapped check body overrun cap entry (body middle)

theorem whileLoop_of_false {remaining : Nat} {machine final : Machine}
    (checked : check machine = .ok false final) :
    whileLoop check body overrun remaining machine = .ok .next final := by
  cases remaining <;> exact bind_of_ok checked

theorem whileLoop_of_error {remaining : Nat} {machine final : Machine}
    {failure : Failure} (checked : check machine = .error failure final) :
    whileLoop check body overrun remaining machine = .error failure final := by
  cases remaining <;> exact bind_of_error checked

theorem whileLoop_of_next {remaining : Nat} {machine middle after : Machine}
    (checked : check machine = .ok true middle)
    (goes : body middle = .ok .next after) :
    whileLoop check body overrun (remaining + 1) machine =
      whileLoop check body overrun remaining after := by
  rw [whileLoop, bind_of_ok checked, if_pos rfl, bind_of_ok goes]

theorem whileLoop_of_stopped {remaining : Nat} {machine middle : Machine}
    (checked : check machine = .ok true middle)
    (stops : ∀ after, body middle ≠ .ok .next after) :
    whileLoop check body overrun (remaining + 1) machine = body middle := by
  rw [whileLoop, bind_of_ok checked, if_pos rfl]
  exact bind_of_stops stops rfl

/-- Rounds that are over have used up as many of those that remained. -/
theorem whileLoop_of_rounds {entry state : Machine} {number : Nat}
    (rounds : Rounds (fun _ => GuardedRound check body) entry number state)
    (remaining : Nat) :
    whileLoop check body overrun (number + remaining) entry =
      whileLoop check body overrun remaining state := by
  induction rounds generalizing remaining with
  | none => rw [Nat.zero_add]
  | more earlier goes ih =>
      obtain ⟨middle, checked, outcome⟩ := goes
      rw [Nat.succ_add_eq_add_succ, ih, whileLoop_of_next checked outcome]

theorem whileLoop_of_runsCapped {cap : Nat} {entry : Machine}
    {outcome : EStateM.Result Failure Machine Flow}
    (runs : RunsCapped check body overrun cap entry outcome) :
    whileLoop check body overrun cap entry = outcome := by
  cases runs with
  | finished rounds within checked =>
      obtain ⟨remaining, rfl⟩ := Nat.exists_eq_add_of_le within
      rw [whileLoop_of_rounds rounds, whileLoop_of_false checked]
  | cutOff rounds checked =>
      exact (whileLoop_of_rounds rounds 0).trans (bind_of_ok checked)
  | guardFailed rounds within checked =>
      obtain ⟨remaining, rfl⟩ := Nat.exists_eq_add_of_le within
      rw [whileLoop_of_rounds rounds, whileLoop_of_error checked]
  | stopped rounds within checked stops =>
      obtain ⟨remaining, rfl⟩ := Nat.exists_eq_add_of_le within
      rw [Nat.succ_add_eq_add_succ, whileLoop_of_rounds rounds,
        whileLoop_of_stopped checked stops]

/-- As long as rounds are left, each of them goes on or is the last one. -/
theorem exists_runsCapped {cap number remaining : Nat}
    (total : number + remaining = cap) {entry state : Machine}
    (rounds : Rounds (fun _ => GuardedRound check body) entry number state) :
    ∃ outcome, RunsCapped check body overrun cap entry outcome := by
  induction remaining generalizing number state with
  | zero =>
      subst total
      match checked : check state with
      | .error failure final =>
          exact ⟨_, .guardFailed rounds (Nat.le_refl _) checked⟩
      | .ok false final => exact ⟨_, .finished rounds (Nat.le_refl _) checked⟩
      | .ok true final => exact ⟨_, .cutOff rounds checked⟩
  | succ remaining ih =>
      match checked : check state with
      | .error failure final =>
          exact ⟨_, .guardFailed rounds (by omega) checked⟩
      | .ok false final => exact ⟨_, .finished rounds (by omega) checked⟩
      | .ok true middle =>
          by_cases goes : ∃ after, body middle = .ok .next after
          · obtain ⟨after, outcome⟩ := goes
            exact ih (by omega) (rounds.more ⟨middle, checked, outcome⟩)
          · exact ⟨_, .stopped rounds (by omega) checked fun after outcome =>
              goes ⟨after, outcome⟩⟩

theorem whileLoop_eq_iff {cap : Nat} {entry : Machine}
    {outcome : EStateM.Result Failure Machine Flow} :
    whileLoop check body overrun cap entry = outcome ↔
      RunsCapped check body overrun cap entry outcome := by
  constructor
  · rintro rfl
    obtain ⟨outcome, runs⟩ :=
      exists_runsCapped (Nat.zero_add cap) (.none : Rounds _ entry 0 entry)
    rwa [whileLoop_of_runsCapped runs]
  · exact whileLoop_of_runsCapped

end Guarded

/-- Rounds keep a store of literals so. -/
theorem literalOnly_of_rounds {check : Execution Bool} {body : Execution Flow}
    (keepsCheck : literalness.Keeps check) (keepsBody : literalness.Keeps body)
    {entry state : Machine} {number : Nat} (literals : entry.store.LiteralOnly)
    (rounds : Rounds (fun _ => GuardedRound check body) entry number state) :
    state.store.LiteralOnly := by
  induction rounds with
  | none => exact literals
  | more _ goes ih =>
      obtain ⟨middle, checked, outcome⟩ := goes
      have keptByCheck := keepsCheck _ ih
      rw [checked] at keptByCheck
      have keptByBody := keepsBody middle keptByCheck
      rw [outcome] at keptByBody
      exact keptByBody

/-- At each moment of a run, there is room for the calls that are active. -/
theorem State.CountedReaches.activeCalls_le {limits : Limits}
    {procedures : List Procedure} {nodes : List Node} {machine : Machine}
    {state : State} (passable : limits.Passable)
    (reached : CountedReaches limits procedures (.start nodes machine) state) :
    state.activeCalls ≤ limits.depth :=
  ((countedReaches_iff passable (within_start nodes machine)).mp
    reached).activeCalls_le (Nat.zero_le _)

/-- A loop is the unbounded one, cut off at its cap, unless the cap is the
greatest word.  Whenever a run comes to the loop, it goes on in rounds while a
fresh reading of the guard holds, and ends as `RunsCapped` tells; behind it the
run goes on with the outcome.  When the loop is cut off, it has done just as
many rounds as are allowed and fails at its own line.  All rounds are allowed
each time: it makes no difference in which loops and procedures the loop stands,
and which loops have come before.  The states between its rounds are left alone
by the guard where the store holds literals.  With the greatest word as the cap,
the loop is never cut off: it goes on whenever its guard holds, whatever number
of rounds it has had. -/
theorem while_cut_at_cap {limits : Limits} {procedures : List Procedure}
    {nodes : List Node} {start machine : Machine} {guard : Value} {line : Nat}
    {body : List Node} {rest : List Task} {callers : List (List Task)}
    (reached : CountedReaches limits procedures (.start nodes start)
      (.running (.node (.block (.whileTrue guard) line body) :: rest) callers
        machine)) :
    let call := callProcedure limits procedures (limits.depth - callers.length)
    let check := reading (.whileTrue guard) line guard.readBool
    let overrun := Fault.at (.run (.tooManyIterations limits.iterations)) line
      (Command.whileTrue guard).describe
    let runs := RunsCapped check (runNodes limits call body) overrun
      limits.iterations machine
    (limits.Passable → ∃ outcome, runs outcome ∧
      (∀ other, runs other → other = outcome) ∧
      CountedReaches limits procedures
        (.running (.node (.block (.whileTrue guard) line body) :: rest) callers
          machine)
        (.resume rest callers outcome)) ∧
    overrun.code.text = "R001" ∧ overrun.line = line ∧
    (machine.store.LiteralOnly → ∀ number state,
      Rounds (fun _ => GuardedRound check (runNodes limits call body))
          machine number state →
        finalState (check state) = state) ∧
    (¬limits.Passable → ∀ rounds before checked,
      check before = .ok true checked →
      CountedSteps limits procedures
        (.running (.repeating guard line body rounds :: rest) callers before)
        (.running
          (body.map .node ++ .repeating guard line body (rounds + 1) :: rest)
          callers checked)) := by
  intro call check overrun runs
  refine ⟨fun passable => ?_, rfl, rfl, fun literals number state rounds => ?_,
    ?_⟩
  · have loop (outcome : EStateM.Result Failure Machine Flow) :
        runNode limits call (.block (.whileTrue guard) line body) machine =
          outcome ↔ runs outcome := by
      rw [runNode]
      exact whileLoop_eq_iff
    refine ⟨_, (loop _).mp rfl, fun other runs => ((loop other).mpr runs).symm,
      ?_⟩
    have bounded : callers.length ≤ limits.depth :=
      reached.activeCalls_le passable
    have calls : CallsRealized limits procedures callers call :=
      callsRealized (Nat.add_sub_of_le bounded)
    have within := reached.within passable (State.within_start nodes start)
    rw [State.countedReaches_iff passable within]
    exact realizes_node calls _ rest machine
  · have steady : Steady guard.readBool := Steady.property.readBool trivial
    have kept := literalOnly_of_rounds (literalness.reading _ line steady)
      (literalness.keeping.runNodes (fun _ _ _ _ => trivial) limits
        (limits.depth - callers.length) fun _ _ => trivial)
      literals rounds
    exact finalState_reading _ line steady kept
  · intro unpassable rounds before checked holds
    exact State.countedSteps_of_holds unpassable holds body rounds rest callers

/-- A loop inside another one, where two rounds are allowed.  The inner loop
comes behind a node that sets its counter back, and has two rounds in each of
the two rounds of the outer one. -/
theorem while_cut_at_cap_nested :
    let below (name : String) : Value :=
      .pending (.comparison .less) (.reference name) (.literal (.int 2))
    let next (name : String) (line : Nat) : Node :=
      .leaf (.assign name
        (.pending (.arithmetic .add) (.reference name) (.literal (.int 1))))
          line
    let reset : Node := .leaf (.assign "j" (.literal (.int 0))) 2
    let body := [.leaf .dot 4, next "j" 5]
    let inner : Node := .block (.whileTrue (below "j")) 3 body
    let round := [reset, inner, next "i" 7]
    let outer : Node := .block (.whileTrue (below "i")) 1 round
    let call := callProcedure ⟨2, 0⟩ [] 0
    let start : Machine := ⟨#[], ⟨[("i", some (.literal (.int 0)))]⟩⟩
    let machine : Machine :=
      ⟨#[],
        ⟨[("i", some (.literal (.int 0))), ("j", some (.literal (.int 0)))]⟩⟩
    let rest : List Task :=
      [.node (next "i" 7), .repeating (below "i") 1 round 1]
    let check := reading (.whileTrue (below "j")) 3 (below "j").readBool
    (finalState (runNode ⟨2, 0⟩ call outer start)).canvas =
      #[.dot, .dot, .dot, .dot] ∧
    CountedReaches ⟨2, 0⟩ [] (.start [outer] start)
      (.running (.node inner :: rest) [] machine) ∧
    machine.store.LiteralOnly ∧ finalState (check machine) = machine ∧
    Limits.Passable ⟨2, 0⟩ ∧
    ∃ outcome overrun,
      RunsCapped check (runNodes ⟨2, 0⟩ call body) overrun 2 machine outcome ∧
      CountedReaches ⟨2, 0⟩ [] (.running (.node inner :: rest) [] machine)
        (.resume rest [] outcome) := by
  intro below next reset body inner round outer call start machine rest check
  have drawn : (finalState (runNode ⟨2, 0⟩ call outer start)).canvas =
      #[.dot, .dot, .dot, .dot] := by decide +kernel
  have reached : CountedReaches ⟨2, 0⟩ [] (.start [outer] start)
      (.running (.node inner :: rest) [] machine) :=
    .head rfl (.head rfl (.single rfl))
  have literals : machine.store.LiteralOnly :=
    (Store.literalOnly_empty.set "i" (.int 0)).set "j" (.int 0)
  have passable : Limits.Passable ⟨2, 0⟩ := by
    unfold Limits.Passable
    decide
  obtain ⟨capped, _, _, alone, _⟩ := while_cut_at_cap reached
  obtain ⟨outcome, runs, _, resumes⟩ := capped passable
  exact ⟨drawn, reached, literals, alone literals 0 machine .none, passable,
    outcome, _, runs, resumes⟩

end PenScript.Execution
