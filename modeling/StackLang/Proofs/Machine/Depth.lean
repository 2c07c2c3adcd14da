import StackLang.Proofs.Machine.Execution

namespace StackLang

open MachineM

/-!
# Stack depths

Every operation takes a fixed number of values off the stack and puts a fixed
number on it, whatever the values are. A step that finds the values it takes
leaves the stack below them alone, and fails only with a fault that code can
have.
-/

namespace Opcode

/-- The number of values that an operation takes off the stack. -/
def pops : Opcode → Nat
  | .add | .sub | .mul | .div | .greaterThan | .equal | .notEqual =>
      2
  | .pop | .bang | .minus | .setGlobal | .jumpNotTruthy =>
      1
  | .constant | .pushTrue | .pushFalse | .pushNull | .getGlobal | .jump =>
      0

/-- The number of values that an operation puts on the stack. -/
def pushes : Opcode → Nat
  | .pop | .setGlobal | .jump | .jumpNotTruthy =>
      0
  | _ =>
      1

end Opcode

/-- A fault that values can cause, rather than code that is not well-formed. -/
def Fault.Expected : Fault → Prop
  | .stackUnderflow | .decode _ | .unknownConstant _ =>
      False
  | _ =>
      True

/-- The machine has the stack of a base machine, which has the same capacity,
and a number of values on top of it. -/
def Machine.Stacked (machine base : Machine) (depth : Nat) : Prop :=
  machine.capacity = base.capacity ∧
    ∃ upper : Array Value,
      machine.stack = base.stack ++ upper ∧ upper.size = depth

/-- A machine has nothing on top of its own stack. -/
theorem Machine.stacked_self (machine : Machine) :
    machine.Stacked machine 0 :=
  ⟨rfl, #[], by simp, rfl⟩

/-- With nothing on top, the stack is that of the base. -/
theorem Machine.Stacked.stack_eq
    {machine base : Machine} (stacked : machine.Stacked base 0) :
    machine.stack = base.stack := by
  obtain ⟨_, upper, shape, size⟩ := stacked
  rw [Array.size_eq_zero_iff] at size
  rw [shape, size, Array.append_empty]

/-- A step takes the stack from one depth to another on any base, unless it
fails as allowed. -/
def MovesStack {ε α : Type}
    (allowed : ε → Prop) (before after : Nat) (step : EStateM ε Machine α) :
    Prop :=
  ∀ base machine, machine.Stacked base before →
    match step machine with
    | .ok _ machine' =>
        machine'.Stacked base after
    | .error error _ =>
        allowed error

namespace MovesStack

variable {ε α β : Type} {allowed : ε → Prop} {before middle after : Nat}

/-- Depths add up over one step after another. -/
theorem bind
    {step : EStateM ε Machine α} {next : α → EStateM ε Machine β}
    (stepMoves : MovesStack allowed before middle step)
    (nextMoves : ∀ value, MovesStack allowed middle after (next value)) :
    MovesStack allowed before after (step >>= next) := by
  intro base machine stacked
  have moved := stepMoves base machine stacked
  simp only [Bind.bind, EStateM.bind]
  cases shape : step machine with
  | ok value machine' =>
      rw [shape] at moved
      exact nextMoves value base machine' moved
  | error error machine' =>
      rw [shape] at moved
      exact moved

/-- Returning a value leaves the stack as it is. -/
theorem pure (value : α) :
    MovesStack allowed before before
      (Pure.pure value : EStateM ε Machine α) :=
  fun _ _ stacked => stacked

/-- A failure that is allowed may stand for any step. -/
theorem throw {error : ε} (isAllowed : allowed error) :
    MovesStack allowed before after
      (MonadExcept.throw error : EStateM ε Machine α) :=
  fun _ _ _ => isAllowed

/-- A change that does not touch the stack leaves it as it is. -/
theorem change
    {update : Machine → Machine}
    (keepsStack : ∀ machine, (update machine).stack = machine.stack)
    (keepsCapacity :
      ∀ machine, (update machine).capacity = machine.capacity) :
    MovesStack allowed before before
      (modify update : EStateM ε Machine PUnit) := by
  intro base machine stacked
  obtain ⟨sameCapacity, upper, shape, size⟩ := stacked
  exact ⟨(keepsCapacity machine).trans sameCapacity, upper,
    (keepsStack machine).trans shape, size⟩

/-- A step moves the stack in the same way wherever its instruction stands. -/
theorem locate
    {step : MachineM α}
    (moves : MovesStack Fault.Expected before after step) (offset : Nat) :
    MovesStack (fun error : RuntimeError => error.fault.Expected)
      before after (MachineM.locate offset step) := by
  intro base machine stacked
  have moved := moves base machine stacked
  rw [MachineM.locate]
  cases shape : step machine with
  | ok value machine' =>
      rw [shape] at moved
      exact moved
  | error fault machine' =>
      rw [shape] at moved
      exact moved

end MovesStack

namespace MachineM

variable {depth : Nat}

/-- A push adds a value, unless the stack is full. -/
theorem push_moves (value : Value) :
    MovesStack Fault.Expected depth (depth + 1) (push value) := by
  rintro base machine ⟨sameCapacity, upper, shape, size⟩
  simp only [push, bind_get]
  by_cases fits : machine.stack.size < machine.capacity
  · rw [if_pos fits]
    refine ⟨sameCapacity, upper.push value, ?_, ?_⟩
    · rw [shape, Array.push_append]
    · rw [Array.size_push, size]
  · rw [if_neg fits]
    exact trivial

/-- A pop takes a value off and finds one. -/
theorem pop_moves : MovesStack Fault.Expected (depth + 1) depth pop := by
  rintro base machine ⟨sameCapacity, upper, shape, size⟩
  have nonempty : upper.size ≠ 0 := by
    rw [size]
    exact Nat.succ_ne_zero depth
  obtain ⟨lower, value, rfl⟩ := Array.eq_push_of_size_ne_zero nonempty
  have top : machine.stack.back? = some value := by
    rw [shape, ← Array.push_append, Array.back?_push]
  simp only [pop, bind_get, top]
  refine ⟨sameCapacity, lower, ?_, ?_⟩
  · simp [shape, ← Array.push_append]
  · simpa using size

/-- Two integers are taken off, whatever is found there. -/
theorem popInts_moves (opcode : Opcode) :
    MovesStack Fault.Expected (depth + 2) depth (popInts opcode) := by
  refine pop_moves.bind fun right => pop_moves.bind fun left => ?_
  split
  · exact .pure _
  · exact .throw trivial

/-- Looking a variable up leaves the stack alone. -/
theorem getGlobal_moves (slot : Nat) :
    MovesStack Fault.Expected depth depth (getGlobal slot) := by
  intro base machine stacked
  simp only [getGlobal, bind_get]
  cases machine.globals[slot]? with
  | some value =>
      exact stacked
  | none =>
      exact trivial

end MachineM

/-- An instruction takes as much off the stack, and puts as much on it, as its
operation does. The pool must have the constant that it names. -/
theorem Instr.execute_moves
    {instr : Instr} {constants : Array Value}
    (pooled : instr.opcode = .constant → instr.operand < constants.size)
    (depth next : Nat) :
    MovesStack Fault.Expected (depth + instr.opcode.pops)
      (depth + instr.opcode.pushes) (instr.execute constants next) := by
  obtain ⟨opcode, operands⟩ := instr
  cases opcode with
  | constant =>
      have found := Array.getElem?_eq_getElem (pooled rfl)
      simp only [execute, found]
      exact (push_moves _).bind fun _ => .pure _
  | pop =>
      exact pop_moves.bind fun value =>
        MovesStack.bind (.change (fun _ => rfl) fun _ => rfl) fun _ => .pure _
  | add | sub | mul | greaterThan =>
      exact (popInts_moves _).bind fun _ =>
        (push_moves _).bind fun _ => .pure _
  | div =>
      refine (popInts_moves _).bind fun operands => ?_
      by_cases isZero : operands.2 = 0
      · simp only [isZero, if_true]
        intro _ _ _
        exact trivial
      · simp only [isZero, if_false]
        exact (push_moves _).bind fun _ => .pure _
  | equal | notEqual =>
      exact pop_moves.bind fun _ => pop_moves.bind fun _ =>
        (push_moves _).bind fun _ => .pure _
  | bang =>
      exact pop_moves.bind fun _ => (push_moves _).bind fun _ => .pure _
  | minus =>
      refine pop_moves.bind fun operand => ?_
      cases operand with
      | int number =>
          exact (push_moves _).bind fun _ => .pure _
      | bool truth =>
          exact .throw trivial
      | null =>
          exact .throw trivial
  | pushTrue | pushFalse | pushNull =>
      exact (push_moves _).bind fun _ => .pure _
  | jump =>
      exact .pure _
  | jumpNotTruthy =>
      exact pop_moves.bind fun _ => .pure _
  | setGlobal =>
      exact pop_moves.bind fun _ =>
        MovesStack.bind (.change (fun _ => rfl) fun _ => rfl) fun _ => .pure _
  | getGlobal =>
      exact (getGlobal_moves _).bind fun _ =>
        (push_moves _).bind fun _ => .pure _

end StackLang
