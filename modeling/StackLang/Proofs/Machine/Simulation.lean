import StackLang.Proofs.Compilation.Balance
import StackLang.Proofs.Program.Evaluation

namespace StackLang

open MachineM EvalM

/-!
# Execution simulates evaluation

Executing the plan of an accepted expression does to the variables what
evaluating the expression does, and pushes its value or fails with its fault.
The stack keeps the operands that are still needed, so its free places are the
room that is left for evaluation.
-/

/-- The machine that holds a store and a stack. -/
def Store.machine
    (store : Store) (capacity : Nat) (stack : Array Value) : Machine where
  capacity := capacity
  stack := stack
  globals := store.globals
  lastPopped := store.lastPopped

/-- Execution ended as evaluation did: with the value on the stack, or with the
same fault and any stack. -/
def Agrees {α : Type} (capacity : Nat) (stackOf : α → Array Value) :
    EStateM.Result Stop Store α →
      EStateM.Result RuntimeError Machine PUnit → Prop
  | .ok value store, .ok _ machine =>
      machine = store.machine capacity (stackOf value) ∧
        (stackOf value).size ≤ capacity
  | .error (.fault fault) store, .error error machine =>
      error.fault = fault ∧
        ∃ stack, machine = store.machine capacity stack
  | _, _ =>
      False

/-- From any store, execution on a stack ends as evaluation does. -/
def Simulates {α : Type}
    (capacity : Nat) (stack : Array Value) (stackOf : α → Array Value)
    (evaluation : EvalM α) (execution : PlacedM PUnit) : Prop :=
  stack.size ≤ capacity →
    ∀ store,
      Agrees capacity stackOf (evaluation store)
        (execution (store.machine capacity stack))

namespace Simulates

variable {α β : Type} {capacity : Nat} {stack : Array Value}

/-- One step after the other simulates. -/
theorem bind
    {middle : α → Array Value} {stackOf : β → Array Value}
    {evaluation : EvalM α} {next : α → EvalM β}
    {execution nextExecution : PlacedM PUnit}
    (simulates : Simulates capacity stack middle evaluation execution)
    (nextSimulates :
      ∀ value,
        Simulates capacity (middle value) stackOf (next value)
          nextExecution) :
    Simulates capacity stack stackOf (evaluation >>= next)
      (execution >>= fun _ => nextExecution) := by
  intro fits store
  have agrees := simulates fits store
  simp only [Bind.bind, EStateM.bind]
  cases evaluated : evaluation store with
  | ok value after =>
      cases executed : execution (store.machine capacity stack) with
      | ok _ machine =>
          rw [evaluated, executed] at agrees
          obtain ⟨rfl, stillFits⟩ := agrees
          exact nextSimulates value stillFits after
      | error error machine =>
          rw [evaluated, executed] at agrees
          exact agrees.elim
  | error stop after =>
      cases executed : execution (store.machine capacity stack) with
      | ok _ machine =>
          rw [evaluated, executed] at agrees
          cases stop <;> exact agrees.elim
      | error error machine =>
          rw [evaluated, executed] at agrees
          cases stop with
          | fault fault =>
              exact agrees
          | meaningless =>
              exact agrees.elim

end Simulates

namespace Store

variable (store : Store) (capacity : Nat) (stack : Array Value)

theorem push_machine (value : Value) :
    push value (store.machine capacity stack) =
      if stack.size < capacity then
        .ok () (store.machine capacity (stack.push value))
      else
        .error .stackOverflow (store.machine capacity stack) := by
  simp only [push, bind_get, machine]
  split <;> rfl

theorem pop_machine (value : Value) :
    pop (store.machine capacity (stack.push value)) =
      .ok value (store.machine capacity stack) := by
  simp only [pop, bind_get, machine, Array.back?_push, bind_modify,
    pure_apply, Array.pop_push]

theorem getGlobal_machine (slot : Nat) :
    getGlobal slot (store.machine capacity stack) =
      match store.globals[slot]? with
      | some value =>
          .ok value (store.machine capacity stack)
      | none =>
          .error (.undefinedGlobal slot) (store.machine capacity stack) := by
  rw [getGlobal, bind_get, machine]
  cases store.globals[slot]? <;> rfl

end Store

/-- An instruction that pushes does what pushing does. -/
theorem Instr.effect_pushes (constants : Array Value) (operands : List Nat) :
    (Instr.mk .pushTrue operands).effect constants = push (.bool true) ∧
      (Instr.mk .pushFalse operands).effect constants = push (.bool false) ∧
      (Instr.mk .pushNull operands).effect constants = push .null := by
  simp [effect, execute]

namespace Simulates

variable {capacity : Nat} {stack : Array Value} {place : Nat}

/-- A value that takes a place is pushed. -/
theorem push (value : Value) :
    Simulates capacity stack (stack.push ·)
      (do
        occupy (capacity - stack.size)
        return value)
      (locate place (MachineM.push value)) := by
  intro fits store
  rw [locate, store.push_machine, occupy]
  by_cases full : capacity - stack.size = 0
  · have noPlace : ¬ stack.size < capacity := by omega
    simp only [full, if_true, if_neg noPlace]
    exact ⟨rfl, stack, rfl⟩
  · have aPlace : stack.size < capacity := by omega
    simp only [full, if_false, if_pos aPlace]
    exact ⟨rfl, by rwa [Array.size_push]⟩

/-- A value finds a place where one was given up. -/
theorem pushBack
    (value : Value) (aPlace : stack.size < capacity) :
    Simulates capacity stack (stack.push ·) (pure value)
      (locate place (MachineM.push value)) := by
  intro _ store
  rw [locate, store.push_machine, if_pos aPlace]
  exact ⟨rfl, by rwa [Array.size_push]⟩

/-- A value that is on the stack is popped, and leaves a place. -/
theorem pop
    {α : Type} {operand : Value} {stackOf : α → Array Value}
    {evaluation : EvalM α} {step : Value → MachineM PUnit}
    (stepSimulates :
      stack.size < capacity →
        Simulates capacity stack stackOf evaluation
          (locate place (step operand))) :
    Simulates capacity (stack.push operand) stackOf evaluation
      (locate place (MachineM.pop >>= step)) := by
  intro fits store
  rw [Array.size_push] at fits
  have simulates := stepSimulates fits (Nat.le_of_lt fits) store
  simp only [locate, Bind.bind, EStateM.bind, store.pop_machine]
  exact simulates

/-- Two integers are found where evaluation finds them, or else execution
fails as evaluation does. -/
theorem popInts
    {opcode : Opcode} {left right : Value}
    {next : Int × Int → EvalM Value} {step : Int64 × Int64 → MachineM PUnit}
    (nextSimulates :
      stack.size < capacity → ∀ leftNumber rightNumber : Int64,
        Simulates capacity stack (stack.push ·)
          (next (leftNumber.toInt, rightNumber.toInt))
          (locate place (step (leftNumber, rightNumber)))) :
    Simulates capacity ((stack.push left).push right) (stack.push ·)
      (integers opcode left right >>= next)
      (locate place (MachineM.popInts opcode >>= step)) := by
  intro fits store
  have aPlace : stack.size < capacity := by
    rw [Array.size_push, Array.size_push] at fits
    omega
  simp only [locate, MachineM.popInts, Bind.bind, EStateM.bind,
    store.pop_machine]
  cases left with
  | int leftNumber =>
      cases right with
      | int rightNumber =>
          exact nextSimulates aPlace leftNumber rightNumber
            (Nat.le_of_lt aPlace) store
      | bool truth =>
          exact ⟨rfl, stack, rfl⟩
      | null =>
          exact ⟨rfl, stack, rfl⟩
  | bool truth =>
      exact ⟨rfl, stack, rfl⟩
  | null =>
      exact ⟨rfl, stack, rfl⟩

end Simulates

section Operators

variable (constants : Array Value) (operands : List Nat)

/-- What the instructions of prefix operators do. -/
theorem Instr.effect_unary :
    (Instr.mk .bang operands).effect constants =
        (do
          let operand ← pop
          push operand.not) ∧
      (Instr.mk .minus operands).effect constants =
        (do
          match ← pop with
          | .int number =>
              push (.int (-number))
          | other =>
              throw (.unsupportedNegation other.typeName)) := by
  refine ⟨by simp [effect, execute], ?_⟩
  simp only [effect, execute, bind_assoc]
  refine bind_congr fun operand => ?_
  cases operand <;> simp

/-- What the instructions of operators on two integers do. -/
theorem Instr.effect_integers :
    (Instr.mk .add operands).effect constants =
        (popInts .add >>= fun found => push (.int (found.1 + found.2))) ∧
      (Instr.mk .sub operands).effect constants =
        (popInts .sub >>= fun found => push (.int (found.1 - found.2))) ∧
      (Instr.mk .mul operands).effect constants =
        (popInts .mul >>= fun found => push (.int (found.1 * found.2))) ∧
      (Instr.mk .greaterThan operands).effect constants =
        (popInts .greaterThan >>= fun found =>
          push (.bool (found.2 < found.1))) := by
  simp [effect, execute]

/-- What the instruction of the quotient does. -/
theorem Instr.effect_div :
    (Instr.mk .div operands).effect constants =
      (popInts .div >>= fun found =>
        if found.2 = 0 then
          throw .divisionByZero
        else
          push (.int (found.1 / found.2))) := by
  simp only [effect, execute, bind_assoc]
  refine bind_congr fun found => ?_
  by_cases isZero : found.2 = 0
  · simp only [if_pos isZero]
    rfl
  · simp [isZero]

/-- What the instructions of comparisons of any two values do. -/
theorem Instr.effect_equality :
    (Instr.mk .equal operands).effect constants =
        (do
          let right ← pop
          let left ← pop
          push (.bool (left = right))) ∧
      (Instr.mk .notEqual operands).effect constants =
        (do
          let right ← pop
          let left ← pop
          push (.bool (left ≠ right))) := by
  simp [effect, execute]

end Operators

section Wrapping

variable (left right : Int64)

/-- A 64-bit integer is the wrapped one if it is congruent to it. -/
theorem wrapped_eq_int
    {exactly : Int} {number : Int64}
    (congruent : number.toInt = exactly.bmod UInt64.size) :
    wrapped exactly = .int number := by
  have same : Int64.ofInt exactly = number := by
    rw [← Int64.toInt_inj, Int64.toInt_ofInt]
    exact congruent.symm
  rw [wrapped, same]

theorem wrapped_add :
    wrapped (left.toInt + right.toInt) = .int (left + right) :=
  wrapped_eq_int (Int64.toInt_add left right)

theorem wrapped_sub :
    wrapped (left.toInt - right.toInt) = .int (left - right) :=
  wrapped_eq_int (Int64.toInt_sub left right)

theorem wrapped_mul :
    wrapped (left.toInt * right.toInt) = .int (left * right) :=
  wrapped_eq_int (Int64.toInt_mul left right)

theorem wrapped_tdiv :
    wrapped (left.toInt.tdiv right.toInt) = .int (left / right) :=
  wrapped_eq_int (Int64.toInt_div left right)

theorem wrapped_neg : wrapped (-left.toInt) = .int (-left) :=
  wrapped_eq_int (Int64.toInt_neg left)

end Wrapping

namespace Simulates

variable {capacity : Nat} {stack : Array Value} {place : Nat}
variable {constants : Array Value}

/-- The instruction of a prefix operator applies the operator. -/
theorem unary
    {operator : String} {operand : Value}
    (accepted : operatorError? operator (unaryOpcode? operator) = none) :
    Simulates capacity (stack.push operand) (stack.push ·)
      (applyUnary operator operand)
      ((Plan.ofOperator (unaryOpcode? operator)).execute constants place) := by
  obtain ⟨opcode, found⟩ := exists_opcode_of_accepted accepted
  have effects := Instr.effect_unary constants []
  rw [found, Plan.ofOperator, Plan.execute]
  rcases unaryOpcode?_cases found with ⟨rfl, rfl⟩ | ⟨rfl, rfl⟩
  · rw [effects.1]
    exact .pop fun aPlace => .pushBack _ aPlace
  · rw [effects.2]
    apply pop
    intro aPlace
    cases operand with
    | int number =>
        rw [applyUnary, wrapped_neg]
        exact .pushBack _ aPlace
    | bool truth =>
        intro _ store
        exact ⟨rfl, stack, rfl⟩
    | null =>
        intro _ store
        exact ⟨rfl, stack, rfl⟩

/-- The greater-than instruction compares the lower value with the upper. -/
theorem greater {left right : Value} :
    Simulates capacity ((stack.push left).push right) (stack.push ·)
      (EvalM.greater left right)
      ((Plan.single ⟨.greaterThan, []⟩).execute constants place) := by
  have effects := Instr.effect_integers constants []
  rw [Plan.execute, effects.2.2.2]
  refine .popInts fun aPlace leftNumber rightNumber => ?_
  simp only [Int64.lt_iff_toInt_lt]
  exact .pushBack _ aPlace

/-- The instruction of an infix operator applies the operator. -/
theorem binary
    {operator : String} {left right : Value}
    (accepted : operatorError? operator (binaryOpcode? operator) = none) :
    Simulates capacity ((stack.push left).push right) (stack.push ·)
      (applyBinary operator left right)
      ((Plan.ofOperator (binaryOpcode? operator)).execute constants
        place) := by
  obtain ⟨opcode, found⟩ := exists_opcode_of_accepted accepted
  obtain ⟨add, sub, mul, -⟩ := Instr.effect_integers constants []
  obtain ⟨equal, notEqual⟩ := Instr.effect_equality constants []
  rw [found, Plan.ofOperator]
  rcases binaryOpcode?_cases found with
    ⟨rfl, rfl⟩ | ⟨rfl, rfl⟩ | ⟨rfl, rfl⟩ | ⟨rfl, rfl⟩ | ⟨rfl, rfl⟩ |
      ⟨rfl, rfl⟩ | ⟨rfl, rfl⟩
  · rw [Plan.execute, add]
    apply popInts
    intro aPlace leftNumber rightNumber
    simp only [wrapped_add]
    exact .pushBack _ aPlace
  · rw [Plan.execute, sub]
    apply popInts
    intro aPlace leftNumber rightNumber
    simp only [wrapped_sub]
    exact .pushBack _ aPlace
  · rw [Plan.execute, mul]
    apply popInts
    intro aPlace leftNumber rightNumber
    simp only [wrapped_mul]
    exact .pushBack _ aPlace
  · rw [Plan.execute, Instr.effect_div]
    apply popInts
    intro aPlace leftNumber rightNumber
    by_cases isZero : rightNumber = 0
    · subst isZero
      intro _ store
      exact ⟨rfl, stack, rfl⟩
    · have notZero : rightNumber.toInt ≠ 0 := by
        intro zero
        exact isZero (Int64.toInt_inj.mp zero)
      simp only [if_neg isZero, if_neg notZero, wrapped_tdiv]
      exact .pushBack _ aPlace
  · exact .greater
  · rw [Plan.execute, equal]
    exact .pop fun _ => .pop fun aPlace => .pushBack _ aPlace
  · rw [Plan.execute, notEqual]
    exact .pop fun _ => .pop fun aPlace => .pushBack _ aPlace

/-- The instruction of a constant pushes the literal that is pooled there. -/
theorem constant
    {index : Nat} {number : Int64}
    (pooled : constants[index]? = some (.int number)) :
    Simulates capacity stack (stack.push ·)
      (do
        occupy (capacity - stack.size)
        return .int number)
      ((Plan.single ⟨.constant, [index]⟩).execute constants place) := by
  have effect :
      (Instr.mk .constant [index]).effect constants =
        MachineM.push (.int number) := by
    simp [Instr.effect, Instr.execute, Instr.operand, pooled]
  rw [Plan.execute, effect]
  exact .push _

/-- The instructions of values without a constant push these values. -/
theorem literal (value : Value) {opcode : Opcode}
    (pushes :
      (Instr.mk opcode []).effect constants = MachineM.push value) :
    Simulates capacity stack (stack.push ·)
      (do
        occupy (capacity - stack.size)
        return value)
      ((Plan.single ⟨opcode, []⟩).execute constants place) := by
  rw [Plan.execute, pushes]
  exact .push _

/-- The instruction of a name reads the slot and pushes what it holds. -/
theorem read (slot : Nat) :
    Simulates capacity stack (stack.push ·)
      (do
        let value ← readSlot slot
        occupy (capacity - stack.size)
        return value)
      ((Plan.single ⟨.getGlobal, [slot]⟩).execute constants place) := by
  have effect :
      (Instr.mk .getGlobal [slot]).effect constants =
        (do
          let value ← getGlobal slot
          MachineM.push value) := by
    simp [Instr.effect, Instr.execute, Instr.operand]
  rw [Plan.execute, effect]
  intro fits store
  cases held : store.globals[slot]? with
  | none =>
      simp only [locate, Bind.bind, EStateM.bind, readSlot_eq,
        store.getGlobal_machine, held]
      exact ⟨rfl, stack, rfl⟩
  | some value =>
      have simulates :
          Simulates capacity stack (stack.push ·)
            (do
              occupy (capacity - stack.size)
              return value)
            (locate place (MachineM.push value)) :=
        .push value
      have pushed := simulates fits store
      simp only [locate, Bind.bind, EStateM.bind, readSlot_eq,
        store.getGlobal_machine, held] at pushed ⊢
      exact pushed

/-- The instruction of a definition writes the slot. -/
theorem write (slot : Nat) (value : Value) :
    Simulates capacity (stack.push value) (fun _ => stack)
      (writeSlot slot value)
      ((Plan.single ⟨.setGlobal, [slot]⟩).execute constants place) := by
  have effect :
      (Instr.mk .setGlobal [slot]).effect constants =
        (do
          let value ← MachineM.pop
          setGlobal slot value) := by
    simp [Instr.effect, Instr.execute, Instr.operand]
  rw [Plan.execute, effect]
  refine .pop fun aPlace => ?_
  intro _ store
  exact ⟨rfl, Nat.le_of_lt aPlace⟩

/-- The instruction that ends an expression statement records its value. -/
theorem discard (value : Value) :
    Simulates capacity (stack.push value) (fun _ => stack) (record value)
      ((Plan.single ⟨.pop, []⟩).execute constants place) := by
  have effect :
      (Instr.mk .pop []).effect constants =
        (do
          let value ← MachineM.pop
          setLastPopped value) := by
    simp [Instr.effect, Instr.execute]
  rw [Plan.execute, effect]
  refine .pop fun aPlace => ?_
  intro _ store
  exact ⟨rfl, Nat.le_of_lt aPlace⟩

/-- A choice goes on with the arm that evaluation chooses. -/
theorem choice
    {chosen rejected : EvalM Value} {consequence alternative : Plan}
    (chosenSimulates :
      ∀ place,
        Simulates capacity stack (stack.push ·) chosen
          (consequence.execute constants place))
    (rejectedSimulates :
      ∀ place,
        Simulates capacity stack (stack.push ·) rejected
          (alternative.execute constants place))
    (condition : Value) :
    Simulates capacity (stack.push condition) (stack.push ·)
      (if condition.isTruthy then chosen else rejected)
      ((Plan.choice consequence alternative).execute constants place) := by
  intro fits store
  have stackFits : stack.size ≤ capacity := by
    rw [Array.size_push] at fits
    omega
  simp only [Plan.execute, locate, Bind.bind, EStateM.bind,
    store.pop_machine]
  by_cases truthy : condition.isTruthy = true
  · simp only [if_pos truthy]
    exact chosenSimulates _ stackFits store
  · simp only [if_neg truthy]
    exact rejectedSimulates _ stackFits store

end Simulates

end StackLang
