import StackLang.Proofs.Compilation.Acceptance
import StackLang.Proofs.Machine.Operations
import StackLang.Proofs.Machine.TrailingDefinition

namespace StackLang

open MachineM

/-!
# Repeated runs

A run writes slots in their order, so a slot that it has read is not written any
more. The variables that it leaves have therefore every value that the run found
in them or wrote to them on its way. A run that begins with them finds the same
values, and changes nothing when it writes these once more.
-/

/-- The machine when it goes over code with the variables, and the value
discarded last, that an earlier run has left. -/
def Machine.revisiting
    (machine : Machine) (globals : Array Value) (earlier : Option Value) :
    Machine :=
  { machine with
    globals
    lastPopped := machine.lastPopped.or earlier }

/-- Every variable that has a value in a store has this value in a later one. -/
def VariablesKept (globals later : Array Value) : Prop :=
  ∀ (slot : Nat) (value : Value),
    globals[slot]? = some value → later[slot]? = some value

theorem VariablesKept.refl (globals : Array Value) :
    VariablesKept globals globals :=
  fun _ _ found => found

theorem VariablesKept.trans
    {first second third : Array Value}
    (firstKept : VariablesKept first second)
    (secondKept : VariablesKept second third) :
    VariablesKept first third :=
  fun slot value found => secondKept slot value (firstKept slot value found)

section Slots

variable {globals : Array Value} {slot : Nat} {value : Value}

/-- A slot behind all others is written without loss. -/
theorem variablesKept_storeGlobal (behind : globals.size ≤ slot) :
    VariablesKept globals (storeGlobal globals slot value) := by
  intro other found present
  have inside : other < globals.size :=
    (Array.getElem?_eq_some_iff.mp present).1
  rw [getElem?_storeGlobal_of_ne (by omega), present]
  rfl

/-- A slot that is given the value that it has is left as it is. -/
theorem storeGlobal_eq_self (present : globals[slot]? = some value) :
    storeGlobal globals slot value = globals := by
  obtain ⟨inside, isValue⟩ := Array.getElem?_eq_some_iff.mp present
  rw [storeGlobal, if_pos inside, Array.setIfInBounds, dif_pos inside,
    ← isValue, Array.set_getElem_self]

end Slots

/--
A step that writes slots from a first one on, where no variable is yet.

It keeps the variables that there are. On a machine that has already all that it
leaves, it does the same as before, and changes no variable.
-/
def Repeats {ε α : Type} (slot next : Nat) (step : EStateM ε Machine α) :
    Prop :=
  ∀ machine value after,
    machine.globals.size ≤ slot →
    step machine = .ok value after →
    after.globals.size ≤ next ∧
      VariablesKept machine.globals after.globals ∧
      ∀ globals earlier,
        VariablesKept after.globals globals →
        step (machine.revisiting globals earlier) =
          .ok value (after.revisiting globals earlier)

namespace Repeats

variable {ε α β : Type} {slot middle next : Nat}

theorem bind
    {step : EStateM ε Machine α} {rest : α → EStateM ε Machine β}
    (repeats : Repeats slot middle step)
    (restRepeats : ∀ value, Repeats middle next (rest value)) :
    Repeats slot next (step >>= rest) := by
  intro machine value after bounded succeeded
  obtain ⟨found, between, stepped, rested⟩ := bind_eq_ok_iff.mp succeeded
  obtain ⟨betweenBounded, kept, again⟩ :=
    repeats machine found between bounded stepped
  obtain ⟨afterBounded, restKept, restAgain⟩ :=
    restRepeats found between value after betweenBounded rested
  refine ⟨afterBounded, kept.trans restKept, ?_⟩
  intro globals earlier later
  exact bind_eq_ok_iff.mpr
    ⟨found, _, again globals earlier (restKept.trans later),
      restAgain globals earlier later⟩

theorem pure (value : α) :
    Repeats slot slot (Pure.pure value : EStateM ε Machine α) := by
  intro machine found after bounded succeeded
  cases succeeded
  exact ⟨bounded, .refl _, fun _ _ _ => rfl⟩

/-- A step that fails does not have to be repeated. -/
theorem throw (error : ε) :
    Repeats slot next (MonadExcept.throw error : EStateM ε Machine α) :=
  nofun

/-- More slots may be reserved for a step than it writes. -/
theorem mono
    {first last : Nat} {step : EStateM ε Machine α}
    (repeats : Repeats slot next step)
    (fromFirst : first ≤ slot) (toLast : next ≤ last) :
    Repeats first last step := by
  intro machine value after bounded succeeded
  obtain ⟨afterBounded, kept, again⟩ :=
    repeats machine value after (Nat.le_trans bounded fromFirst) succeeded
  exact ⟨Nat.le_trans afterBounded toLast, kept, again⟩

/-- A step is repeated in the same way wherever its instruction stands. -/
theorem locate
    {step : MachineM α} (repeats : Repeats slot next step) (offset : Nat) :
    Repeats slot next (MachineM.locate offset step) := by
  intro machine value after bounded succeeded
  simp only [locate_eq_ok_iff] at succeeded ⊢
  exact repeats machine value after bounded succeeded

theorem push (value : Value) : Repeats slot slot (MachineM.push value) := by
  intro machine found after bounded succeeded
  obtain ⟨fits, rfl⟩ := push_eq_ok_iff.mp succeeded
  exact ⟨bounded, .refl _, fun _ _ _ => push_eq_ok_iff.mpr ⟨fits, rfl⟩⟩

theorem pop : Repeats slot slot MachineM.pop := by
  intro machine found after bounded succeeded
  obtain ⟨top, rfl⟩ := pop_eq_ok_iff.mp succeeded
  exact ⟨bounded, .refl _, fun _ _ _ => pop_eq_ok_iff.mpr ⟨top, rfl⟩⟩

theorem setLastPopped (value : Value) :
    Repeats slot slot (MachineM.setLastPopped value) := by
  intro machine found after bounded succeeded
  cases succeeded
  exact ⟨bounded, .refl _, fun _ _ _ => rfl⟩

/-- A variable that was found is found again. -/
theorem getGlobal (index : Nat) :
    Repeats slot slot (MachineM.getGlobal index) := by
  intro machine found after bounded succeeded
  obtain ⟨present, rfl⟩ := getGlobal_eq_ok_iff.mp succeeded
  refine ⟨bounded, .refl _, ?_⟩
  intro globals earlier later
  exact getGlobal_eq_ok_iff.mpr ⟨later index found present, rfl⟩

/-- A slot that was written has the value already. -/
theorem setGlobal (slot : Nat) (value : Value) :
    Repeats slot (slot + 1) (MachineM.setGlobal slot value) := by
  intro machine found after bounded succeeded
  cases succeeded
  refine ⟨?_, variablesKept_storeGlobal bounded, ?_⟩
  · rw [size_storeGlobal]
    omega
  · intro globals earlier later
    have present : globals[slot]? = some value :=
      later slot value (getElem?_storeGlobal_self value)
    have written :
        MachineM.setGlobal slot value (machine.revisiting globals earlier) =
          .ok ()
            (machine.revisiting (storeGlobal globals slot value) earlier) :=
      rfl
    rw [written, storeGlobal_eq_self present]
    rfl

/-- Operations on the stack are repeated, and write no slot. -/
theorem hereditary : Hereditary (Repeats slot slot) where
  pure := pure
  throw fault _ := throw fault
  bind := bind
  push := push
  pop := pop

end Repeats

/-- An instruction that writes no slot is repeated. -/
theorem Instr.effect_repeats
    {instr : Instr} (noWrite : instr.opcode ≠ .setGlobal)
    (constants : Array Value) (slot : Nat) :
    Repeats slot slot (instr.effect constants) :=
  Repeats.bind
    (Repeats.hereditary.execute instr constants 0
      (fun _ value => .setLastPopped value)
      (fun writes => (noWrite writes).elim)
      (fun _ => .getGlobal _))
    fun _ => .pure _

/-- A plan that writes slots in their order is repeated. -/
theorem Plan.WritesSlots.execute_repeats
    {plan : Plan} {slot next : Nat} (writes : plan.WritesSlots slot next)
    (constants : Array Value) (offset : Nat) :
    Repeats slot next (plan.execute constants offset) := by
  induction writes generalizing offset with
  | empty =>
      exact .pure _
  | write slot =>
      refine Repeats.locate ?_ offset
      exact (Repeats.pop.bind fun value =>
        (Repeats.setGlobal slot value).bind fun _ => .pure _).bind fun _ =>
          .pure _
  | read =>
      refine Repeats.locate (Instr.effect_repeats ?_ constants _) offset
      nofun
  | other noWrite =>
      exact (Instr.effect_repeats noWrite constants _).locate offset
  | seq _ _ firstHypothesis secondHypothesis =>
      exact (firstHypothesis offset).bind fun _ => secondHypothesis _
  | choice consequenceWrites alternativeWrites consequenceHypothesis
      alternativeHypothesis =>
      refine (Repeats.pop.locate offset).bind fun condition => ?_
      split
      · exact (consequenceHypothesis _).mono (Nat.le_refl _)
          alternativeWrites.le
      · exact (alternativeHypothesis _).mono consequenceWrites.le
          (Nat.le_refl _)

/-- A machine without variables of its own that has finished a compiled program
finishes it again, and is left as it was: with the same stack, the same
variables and the same value discarded last. -/
theorem rerun_of_compile
    {program : Program} {bytecode : Bytecode} {capacity fuel : Nat}
    {finished : Machine}
    (succeeded : compile program = .ok bytecode)
    (finishes :
      bytecode.run fuel (.ofCapacity capacity) = .finished finished) :
    ∀ more, bytecode.code.size < more →
      bytecode.run more finished = .finished finished := by
  obtain ⟨after, rfl, compiled⟩ := compiled_of_compile succeeded
  have balanced :
      (planStatements ⟨0, .empty⟩ program).Balanced
        after.bytecode.constants.size 0 0 :=
    compiled.balanced
  have executed :=
    Plan.execute_of_finished balanced.straight compiled.consists finishes
  have stacked :=
    balanced.execute_moves rfl 0 _ _ (Machine.stacked_self (.ofCapacity capacity))
  rw [executed] at stacked
  have noVariables :
      (Machine.ofCapacity capacity).globals.size ≤ Scope.empty.count :=
    Nat.zero_le _
  obtain ⟨_, _, again⟩ :=
    (planStatements_writesSlots program compiled.accepted
      Scope.bounded_empty).execute_repeats after.bytecode.constants 0
      _ _ _ noVariables executed
  have executedAgain := again finished.globals finished.lastPopped (.refl _)
  have revisited :
      finished.revisiting finished.globals finished.lastPopped = finished := by
    rw [Machine.revisiting, Option.or_self]
  have begun :
      (Machine.ofCapacity capacity).revisiting finished.globals
          finished.lastPopped =
        finished := by
    have sameCapacity : finished.capacity = capacity := stacked.1
    have sameStack : finished.stack = #[] := stacked.stack_eq
    rw [Machine.revisiting, ← sameCapacity]
    simp only [Machine.ofCapacity, ← sameStack]
    rfl
  rw [revisited, begun] at executedAgain
  intro more enough
  exact Plan.finished_of_execute balanced.straight compiled.consists
    (compiled.wellFormed.runsForward finished) executedAgain enough

/-- A definition that is skipped, one that is executed, and a read of the skipped
one. -/
def filledDefinition : Program :=
  [.expr (.ifThen (.bool false) [.define "a" (.int 5)]),
    .define "b" (.int 7),
    .expr (.ident "a")]

/-- The second definition has the slot behind that of the skipped one. -/
theorem compile_filledDefinition :
    compile filledDefinition =
      .ok
        ⟨⟨#[7, 13, 0, 14, 0, 0, 0, 17, 0, 0, 15, 14, 0, 15, 15, 2, 0, 0, 1, 17,
          0, 1, 16, 0, 0, 2]⟩,
          #[.int 5, .int 7]⟩ := by
  have accepted :
      firstErrorOfStatements? 0 ⟨0, .empty⟩ filledDefinition = none :=
    Program.firstError?_eq.trans rfl
  rw [compile_eq_of_accepted accepted]
  simp [filledDefinition, planStatements, Stmt.plan, Expr.plan, planArm,
    Stmt.planTail, allEmpty, Expr.advance, Stmt.advance, Numbering.advance,
    Expr.lets, Expr.literals, Stmt.lets, Stmt.literals, letsOfStatements,
    literalsOfStatements, Scope.defineAll, Scope.resolve?_define, Plan.layout,
    Plan.size]
  rfl

/-- The first run fills the slot of the skipped definition with null, and reads
this; the second run finds it there from the start. -/
theorem rerun_filledDefinition :
    ∃ bytecode,
      compile filledDefinition = .ok bytecode ∧
        bytecode.run 9 (.ofCapacity 1) =
          .finished ⟨1, #[], #[.null, .int 7], some .null⟩ ∧
        ∀ more, bytecode.code.size < more →
          bytecode.run more ⟨1, #[], #[.null, .int 7], some .null⟩ =
            .finished ⟨1, #[], #[.null, .int 7], some .null⟩ := by
  have finishes :
      (Bytecode.mk
          ⟨#[7, 13, 0, 14, 0, 0, 0, 17, 0, 0, 15, 14, 0, 15, 15, 2, 0, 0, 1,
            17, 0, 1, 16, 0, 0, 2]⟩
          #[.int 5, .int 7]).run 9 (.ofCapacity 1) =
        .finished ⟨1, #[], #[.null, .int 7], some .null⟩ := by
    decide +kernel
  exact ⟨_, compile_filledDefinition, finishes,
    rerun_of_compile compile_filledDefinition finishes⟩

end StackLang
