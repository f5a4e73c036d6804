import Mathlib.Logic.Function.Iterate
import PenScript.Proofs.Sessions

/-!
# Running a script again

A script that runs well from a fresh store gives every variable a value before
it is read.  So a second run, from the store that the first one left, reads the
same values: at each moment its store is that of the first run, with the old
values where the first run has none yet.
-/

namespace PenScript

open Stateful

namespace Store

/-- A store as runs keep it: its values are literals and its names are
distinct. -/
structure Regular (store : Store) : Prop where
  literals : store.LiteralOnly
  distinct : store.names.Nodup

/-- The variables of `base`, with their values in `store` where they have one
there. -/
def overlay (store base : Store) : Store :=
  ⟨base.slots.map fun slot => (slot.1, (store.value? slot.1).or slot.2)⟩

theorem Regular.set {store : Store} (regular : store.Regular) (name : String)
    (result : Literal) : (store.set name (.literal result)).Regular :=
  ⟨regular.literals.set name result, nodup_names_insert regular.distinct name _⟩

theorem Regular.insert_none {store : Store} (regular : store.Regular)
    (name : String) :
    (store.insert name none).Regular :=
  ⟨regular.literals.insert_none name,
    nodup_names_insert regular.distinct name _⟩

@[simp] theorem names_overlay (store base : Store) :
    (store.overlay base).names = base.names := by
  simp [names, overlay]

theorem find?_overlay (store base : Store) (name : String) :
    (store.overlay base).find? name =
      (base.find? name).map (store.value? name).or := by
  obtain ⟨slots⟩ := base
  simp only [find?, overlay]
  induction slots with
  | nil => rfl
  | cons slot rest ih =>
      rw [List.map_cons, lookup_slot_cons, lookup_slot_cons, ih]
      split
      · next same => simp [same]
      · rfl

theorem below_overlay {store base : Store}
    (included : store.names ⊆ base.names) :
    store.Below (store.overlay base) := by
  intro name value found
  have present : base.contains name = true :=
    contains_iff_mem_names.mpr
      (included (contains_iff_mem_names.mp (contains_of_value? found)))
  obtain ⟨slot, held⟩ := Option.isSome_iff_exists.mp present
  rw [value?_eq_some_iff, find?_overlay, held, found]
  rfl

theorem Regular.overlay {store base : Store} (regular : store.Regular)
    (baseRegular : base.Regular) :
    (store.overlay base).Regular := by
  refine ⟨?_, by simpa using baseRegular.distinct⟩
  intro slot member value filled
  obtain ⟨old, oldMember, rfl⟩ := List.mem_map.mp member
  cases found : store.value? old.1 with
  | none =>
      exact baseRegular.literals old oldMember value
        (by simpa [found] using filled)
  | some newer =>
      obtain rfl : newer = value := by simpa [found] using filled
      exact regular.literals.value?_literal found

/-- Nothing shows over a store that has its own values. -/
theorem overlay_self {store : Store} (distinct : store.names.Nodup) :
    store.overlay store = store := by
  have same :
      ∀ slot ∈ store.slots,
        (slot.1, (store.value? slot.1).or slot.2) = slot := by
    intro slot member
    have found := find?_of_mem_slots distinct member
    simp [value?, found]
  simp only [overlay]
  rw [List.map_congr_left same, List.map_id']

theorem Vacant.overlay {store : Store} (vacant : store.Vacant) (base : Store) :
    store.overlay base = base := by
  simp [Store.overlay, vacant.value?_eq_none]

/-- The slot is the only one of its name, so the rest of the store stays as it
is. -/
theorem overlay_set {store base : Store} {name : String} (value : Value)
    (distinct : base.names.Nodup) (present : name ∈ base.names) :
    (store.set name value).overlay base =
      (store.overlay base).set name value := by
  obtain ⟨slots⟩ := base
  refine congrArg Store.mk ?_
  simp only [overlay, names] at *
  have elsewhere {slot : String × Option Value} (different : slot.1 ≠ name) :
      (slot.1, ((store.set name value).value? slot.1).or slot.2) =
        (slot.1, (store.value? slot.1).or slot.2) := by
    rw [value?_set, if_neg different]
  induction slots with
  | nil => cases present
  | cons slot rest ih =>
      simp only [List.map_cons, List.nodup_cons] at distinct present
      by_cases here : slot.1 = name
      · have others : ∀ later ∈ rest, later.1 ≠ name := by
          intro later member same
          exact distinct.1
            (List.mem_map.mpr ⟨later, member, same.trans here.symm⟩)
        have kept :=
          List.map_congr_left fun later member =>
            elsewhere (others later member)
        rw [List.map_cons, List.map_cons, putSlot, if_pos here, kept, here,
          value?_set]
        simp
      · have later : name ∈ rest.map Prod.fst := by
          simpa [Ne.symm here] using present
        rw [List.map_cons, List.map_cons, putSlot, if_neg here, elsewhere here,
          ih distinct.2 later]

theorem overlay_insert_none {store base : Store} {name : String}
    (missing : store.contains name = false) :
    (store.insert name none).overlay base = store.overlay base := by
  have same (other : String) :
      (store.insert name none).value? other = store.value? other := by
    by_cases here : other = name
    · subst here
      rw [value?_of_not_contains missing]
      simp [value?, find?_insert]
    · simp [value?, find?_insert, here]
  simp [overlay, same]

end Store

namespace Effect

/-- The effect of the same command in a later run, where the variable of a
declaration is there already. -/
def again : Effect → Effect
  | .declare _ => .idle
  | effect => effect

theorem regular_apply (effect : Effect) {machine : Machine}
    (regular : machine.store.Regular) :
    (effect.apply machine).store.Regular := by
  cases effect with
  | draw stroke => exact regular
  | assign name result => exact regular.set name result
  | declare name => exact regular.insert_none name
  | idle => exact regular

theorem names_subset_apply (effect : Effect) (machine : Machine) :
    machine.store.names ⊆ (effect.apply machine).store.names := by
  cases effect with
  | draw stroke => exact List.Subset.refl _
  | assign name result => exact Store.names_subset_insert _ name _
  | declare name => exact Store.names_subset_insert _ name _
  | idle => exact List.Subset.refl _

end Effect

theorem Command.Yields.apply_again {command : Command} {machine : Machine}
    {effect : Effect} (yields : command.Yields machine.store effect)
    {base : Store} (regular : base.Regular)
    (included : (effect.apply machine).store.names ⊆ base.names)
    (canvas : Canvas) :
    effect.again.apply ⟨canvas, machine.store.overlay base⟩ =
      ⟨canvas ++ effect.strokes,
        (effect.apply machine).store.overlay base⟩ := by
  cases yields with
  | draw stroke => simp [Effect.again, Effect.apply, Effect.strokes]
  | assign name result target =>
      have present : name ∈ base.names := included (by
        rw [← Store.contains_iff_mem_names]
        simp [Effect.apply, Store.set, Store.contains_insert])
      simp [Effect.again, Effect.apply, Effect.strokes,
        Store.overlay_set _ regular.distinct present]
  | declare name target missing =>
      simp [Effect.again, Effect.apply, Effect.strokes,
        Store.overlay_insert_none missing]
  | idle => simp [Effect.again, Effect.apply, Effect.strokes]

theorem Command.effect_again {command : Command} {machine : Machine}
    {effect : Effect} {base : Store} (regular : machine.store.Regular)
    (baseRegular : base.Regular)
    (included : (effect.apply machine).store.names ⊆ base.names)
    (outcome : command.effect machine.store = .ok effect machine.store) :
    command.effect (machine.store.overlay base) =
      .ok effect.again (machine.store.overlay base) := by
  have includedBefore : machine.store.names ⊆ base.names :=
    List.Subset.trans (effect.names_subset_apply machine) included
  rcases command.steady_effect with ⟨steady, declaresNothing⟩ | ⟨name, form⟩
  · have repeated : effect.again = effect := by
      cases effect with
      | declare name => exact absurd outcome (declaresNothing _ _ _)
      | draw stroke => rfl
      | assign name result => rfl
      | idle => rfl
    rw [repeated]
    exact steady.grows regular.literals (regular.overlay baseRegular).literals
      (Store.below_overlay includedBefore) outcome
  · rw [form] at outcome ⊢
    have repeated : effect.again = .idle ∧ name ∈ base.names := by
      rcases (declaring_eq_ok outcome).2 with ⟨rfl, present⟩ | ⟨rfl, _⟩
      · exact ⟨rfl, includedBefore (Store.contains_iff_mem_names.mp present)⟩
      · refine ⟨rfl, included ?_⟩
        rw [← Store.contains_iff_mem_names]
        simp [Effect.apply, Store.contains_insert]
    have present : (machine.store.overlay base).contains name = true := by
      rw [Store.contains_iff_mem_names, Store.names_overlay]
      exact repeated.2
    rw [repeated.1]
    simp [declaring, present]

namespace Execution

/-- A successful execution can be repeated: from the store that a run leaves
behind it gives the same answer and makes the same strokes. -/
def Replays {α : Type} (execution : Execution α) : Prop :=
  ∀ {machine final : Machine} {answer : α}, machine.store.Regular →
    execution machine = .ok answer final →
      final.store.Regular ∧ machine.store.names ⊆ final.store.names ∧
      ∃ strokes, final.canvas = machine.canvas ++ strokes ∧
        ∀ base canvas, base.Regular → final.store.names ⊆ base.names →
          execution ⟨canvas, machine.store.overlay base⟩ =
            .ok answer ⟨canvas ++ strokes, final.store.overlay base⟩

theorem replays_performing (command : Command) (line : Nat) :
    Replays (performing command line) := by
  intro machine final flow regular outcome
  obtain ⟨effect, store, came, rfl, rfl⟩ := performing_eq_ok_iff.mp outcome
  obtain rfl : store = machine.store := by
    simpa [came] using command.finalState_effect regular.literals
  refine ⟨effect.regular_apply regular, effect.names_subset_apply machine,
    effect.strokes, effect.canvas_apply machine, ?_⟩
  intro base canvas baseRegular included
  have cameAgain := command.effect_again regular baseRegular included came
  rw [← (Command.yields_of_effect came).apply_again baseRegular included canvas]
  exact performing_eq_ok_iff.mpr ⟨_, _, cameAgain, rfl, rfl⟩

theorem replays_reading {α : Type} (command : Command) (line : Nat)
    {action : Value.Reading α} (steady : Steady action) :
    Replays (reading command line action) := by
  intro machine final answer regular outcome
  unfold reading at outcome ⊢
  split at outcome
  · next read =>
      cases outcome
      cases steady.keeps_ok regular.literals read
      refine ⟨regular, List.Subset.refl _, #[], by simp, ?_⟩
      intro base canvas baseRegular included
      have again :=
        steady.grows regular.literals (regular.overlay baseRegular).literals
        (Store.below_overlay included) read
      simp [again]
  · cases outcome

theorem replays_setCounter (counter : String) (value : Int) :
    Replays (setCounter counter value) := by
  intro machine final answer regular outcome
  cases outcome
  refine ⟨regular.set _ _, Store.names_subset_insert _ _ _, #[], by simp, ?_⟩
  intro base canvas baseRegular included
  have present : counter ∈ base.names := included (by
    rw [← Store.contains_iff_mem_names]
    simp [Store.set, Store.contains_insert])
  rw [Store.overlay_set _ baseRegular.distinct present, Array.append_empty]
  rfl

/-- Whatever a run is composed of can be repeated. -/
def replaying : RunProperty (fun _ _ => True) where
  Holds execution := Replays execution
  returning answer := by
    intro machine final _ regular outcome
    cases outcome
    refine ⟨regular, List.Subset.refl _, #[], by simp,
      fun base canvas _ _ => ?_⟩
    rw [Array.append_empty]
    rfl
  sequence := by
    intro α β first next replaysFirst replaysNext machine final answer
      regular outcome
    obtain ⟨between, middle, firstOutcome, nextOutcome⟩ :=
      bind_eq_ok_iff.mp outcome
    obtain ⟨middleRegular, grownFirst, strokes, drawnFirst, firstAgain⟩ :=
      replaysFirst regular firstOutcome
    obtain ⟨finalRegular, grownNext, more, drawnNext, nextAgain⟩ :=
      replaysNext between middleRegular nextOutcome
    refine ⟨finalRegular, List.Subset.trans grownFirst grownNext,
      strokes ++ more,
      by rw [drawnNext, drawnFirst, Array.append_assoc], ?_⟩
    intro base canvas baseRegular included
    rw [bind_of_ok
      (firstAgain base canvas baseRegular
        (List.Subset.trans grownNext included)),
      nextAgain base _ baseRegular included, Array.append_assoc]
  stopping := by
    intro α fault command line _ machine final answer _ outcome
    cases outcome
  performing _ := replays_performing _ _
  guarding _ _ := replays_reading _ _ (Steady.property.readBool trivial)
  bounding _ :=
    replays_reading _ _ (Steady.property.readRange fun _ _ => trivial)
  counting value _ := replays_setCounter _ value

/-- A run that went well from a store without values goes as well from the store
it left. -/
theorem run_again (limits : Limits) (procedures : List Procedure)
    (nodes : List Node) {machine final : Machine}
    (vacant : machine.store.Vacant) (distinct : machine.store.names.Nodup)
    (outcome : run limits procedures nodes machine = .ok () final) :
    ∃ strokes, final.canvas = machine.canvas ++ strokes ∧
      ∀ canvas, run limits procedures nodes ⟨canvas, final.store⟩ =
        .ok () ⟨canvas ++ strokes, final.store⟩ := by
  have replays : Replays (run limits procedures nodes) :=
    replaying.run (fun _ _ _ _ => trivial) limits fun _ _ => trivial
  obtain ⟨regular, _, strokes, drawn, again⟩ :=
    replays ⟨vacant.literalOnly, distinct⟩ outcome
  refine ⟨strokes, drawn, fun canvas => ?_⟩
  have repeated := again final.store canvas regular (List.Subset.refl _)
  rwa [vacant.overlay, Store.overlay_self regular.distinct] at repeated

end Execution

namespace Session

/-- A loaded script that has been executed without a failure can be executed any
number of times.  Each execution succeeds, adds the same strokes to the canvas,
and leaves the store as the first one left it.  They differ from the first one
in the canvas that they start from only. -/
theorem execute_again {session loaded first : Session} {source : String}
    (load : (session.load source).2 = loaded)
    (execute : loaded.execute = (.ok (), first)) :
    ∃ strokes, first.canvas = loaded.canvas ++ strokes ∧
      ∀ count,
        let again := (fun session : Session => session.execute.2)^[count] first
        again.store = first.store ∧
          again.execute =
            (.ok (), { again with canvas := again.canvas ++ strokes }) := by
  have fresh : loaded.store.Fresh := load ▸ session.fresh_load source
  obtain ⟨final, outcome, rfl⟩ := execute_eq_ok_iff.mp execute
  obtain ⟨strokes, drawn, repeated⟩ :=
    Execution.run_again _ _ _ fresh.vacant fresh.distinct outcome
  refine ⟨strokes, drawn, ?_⟩
  have once (canvas : Canvas) :
      Session.execute { loaded with canvas, store := final.store } =
        (.ok (),
          { loaded with canvas := canvas ++ strokes, store := final.store }) :=
    execute_eq_ok_iff.mpr ⟨_, repeated canvas, rfl⟩
  have reached (count : Nat) : ∃ canvas,
      (fun session : Session => session.execute.2)^[count]
        { loaded with canvas := final.canvas, store := final.store } =
          { loaded with canvas, store := final.store } := by
    induction count with
    | zero => exact ⟨final.canvas, rfl⟩
    | succ count ih =>
        obtain ⟨canvas, same⟩ := ih
        refine ⟨canvas ++ strokes, ?_⟩
        rw [Function.iterate_succ_apply', same, once]
  intro count
  obtain ⟨canvas, same⟩ := reached count
  simp only [same]
  exact ⟨trivial, once canvas⟩

/-- A script that counts with a variable it declares without a value.  Its
second execution starts with the value that the first one ended with. -/
theorem execute_again_counting_script :
    ∃ loaded first,
      ((new {} true).load
        "var x\nx = 1\nwhile x < 3\nlineto x x\nx = x + 1\nend").2 = loaded ∧
      loaded.execute = (.ok (), first) ∧ first.store.value? "x" =
        some (.literal (.int 3)) ∧
      ∃ strokes, first.canvas = loaded.canvas ++ strokes ∧
        ∀ count,
          let again :=
            (fun session : Session => session.execute.2)^[count] first
          again.store = first.store ∧
            again.execute =
              (.ok (), { again with canvas := again.canvas ++ strokes }) := by
  have succeeds :
      ((new {} true).load
        "var x\nx = 1\nwhile x < 3\nlineto x x\nx = x + 1\nend").2.execute.1 =
        .ok () := by decide +kernel
  have counted :
      ((new {} true).load
          "var x\nx = 1\nwhile x < 3\nlineto x x\nx = x + 1\nend"
        ).2.execute.2.store.value? "x" =
        some (.literal (.int 3)) := by decide +kernel
  generalize load :
    ((new {} true).load
      "var x\nx = 1\nwhile x < 3\nlineto x x\nx = x + 1\nend").2 = loaded
    at succeeds counted ⊢
  have execute : loaded.execute = (.ok (), loaded.execute.2) :=
    Prod.ext succeeds rfl
  exact ⟨loaded, loaded.execute.2, rfl, execute, counted,
    execute_again load execute⟩

end Session

end PenScript
