import StackLang.Proofs.Machine.Depth
import StackLang.Proofs.Machine.MemoryRuns

namespace StackLang

open MachineM

/-!
# Failures

An instruction that fails has done nothing but take values off the stack. How
many it has taken depends on the fault alone: an operation looks at its operands
only when all of them are popped, and what takes operands finds room for its
result.
-/

/-- The machine after values were popped, and nothing else was done. -/
def Machine.Popped (machine : Machine) (count : Nat) (after : Machine) : Prop :=
  count ≤ machine.stack.size ∧
    after =
      { machine with
        stack := machine.stack.extract 0 (machine.stack.size - count) }

namespace Machine.Popped

variable {machine after : Machine} {count : Nat}

/-- Nothing was popped from a machine that is as it was. -/
theorem refl (machine : Machine) : machine.Popped 0 machine := by
  refine ⟨Nat.zero_le _, ?_⟩
  rw [Nat.sub_zero, Array.extract_size]

/-- What was popped is missing from the stack. -/
theorem size_eq (popped : machine.Popped count after) :
    after.stack.size + count = machine.stack.size := by
  obtain ⟨enough, rfl⟩ := popped
  rw [Array.size_extract]
  omega

/-- What is left on the stack is as it was. -/
theorem getElem?_stack
    (popped : machine.Popped count after) {index : Nat}
    (isLeft : index < after.stack.size) :
    after.stack[index]? = machine.stack[index]? := by
  obtain ⟨enough, rfl⟩ := popped
  rw [Array.size_extract] at isLeft
  rw [Array.getElem?_extract, if_pos isLeft, Nat.zero_add]

/-- One more value is popped. -/
theorem pop (popped : machine.Popped count after)
    (nonempty : after.stack ≠ #[]) :
    machine.Popped (count + 1) { after with stack := after.stack.pop } := by
  have sizes := popped.size_eq
  have positive : after.stack.size ≠ 0 := by
    rwa [Ne, Array.size_eq_zero_iff]
  refine ⟨by omega, ?_⟩
  obtain ⟨_, rfl⟩ := popped
  simp only [pop_extract (Nat.sub_le _ count), Nat.sub_sub]

end Machine.Popped

/-- The operations that put a value on the stack without taking one off. -/
def Opcode.grows (opcode : Opcode) : Bool :=
  opcode.pops = 0 ∧ opcode.pushes = 1

/-- How an instruction can fail on a machine, and the number of values that it
has popped then. -/
inductive Instr.Fails (instr : Instr) (machine : Machine) : Fault → Nat → Prop
  | overflow (grows : instr.opcode.grows)
      (full : machine.stack.size = machine.capacity) :
      Fails instr machine .stackOverflow 0
  | underflow (tooFew : machine.stack.size < instr.opcode.pops) :
      Fails instr machine .stackUnderflow machine.stack.size
  | unknownConstant (looksUp : instr.opcode = .constant) :
      Fails instr machine (.unknownConstant instr.operand) 0
  | undefinedGlobal (reads : instr.opcode = .getGlobal) :
      Fails instr machine (.undefinedGlobal instr.operand) 0
  | unsupportedOperands (takesTwo : instr.opcode.pops = 2)
      (left right : String) :
      Fails instr machine (.unsupportedOperands instr.opcode left right) 2
  | unsupportedNegation (negates : instr.opcode = .minus) (operand : String) :
      Fails instr machine (.unsupportedNegation operand) 1
  | divisionByZero (divides : instr.opcode = .div) :
      Fails instr machine .divisionByZero 2

/-- A step that begins when a number of values are popped fails only as allowed
for the number that is popped then. -/
def FailsOnlyAs {α : Type}
    (start : Machine) (allowed : Fault → Nat → Prop) (count : Nat)
    (step : MachineM α) : Prop :=
  ∀ machine, start.Popped count machine →
    ∀ fault after, step machine = .error fault after →
      ∃ popped, start.Popped popped after ∧ allowed fault popped

namespace FailsOnlyAs

variable {α β : Type} {start : Machine} {allowed : Fault → Nat → Prop}
variable {count : Nat}

theorem pure (value : α) :
    FailsOnlyAs start allowed count (Pure.pure value) := by
  intro machine popped fault after failed
  cases failed

theorem throw {fault : Fault} (isAllowed : allowed fault count) :
    FailsOnlyAs start allowed count (MonadExcept.throw fault : MachineM α) := by
  intro machine popped found after failed
  cases failed
  exact ⟨count, popped, isAllowed⟩

/-- Nothing after a step that fails on its own has to be looked at. -/
theorem throwThen {fault : Fault} (isAllowed : allowed fault count)
    (next : α → MachineM β) :
    FailsOnlyAs start allowed count (MonadExcept.throw fault >>= next) :=
  throw isAllowed

/-- A change that does not fail does not have to be looked at, if nothing after
it fails. -/
theorem change
    (update : Machine → Machine) (value : α) :
    FailsOnlyAs start allowed count
      (do
        modify update
        return value) := by
  intro machine popped fault after failed
  cases failed

/-- A pop fails when all values are popped. -/
theorem popThen
    {next : Value → MachineM α}
    (allPopped : start.stack.size = count → allowed .stackUnderflow count)
    (nextFails : ∀ value, FailsOnlyAs start allowed (count + 1) (next value)) :
    FailsOnlyAs start allowed count (MachineM.pop >>= next) := by
  intro machine popped fault after failed
  rcases bind_eq_error_iff.mp failed with underflow | ⟨value, middle, found, rest⟩
  · obtain ⟨isEmpty, rfl, rfl⟩ := pop_eq_error_iff.mp underflow
    have sizes := popped.size_eq
    rw [isEmpty, Array.size_empty, Nat.zero_add] at sizes
    exact ⟨count, popped, allPopped sizes.symm⟩
  · obtain ⟨top, rfl⟩ := pop_eq_ok_iff.mp found
    have nonempty : machine.stack ≠ #[] := by
      intro isEmpty
      rw [isEmpty] at top
      cases top
    exact nextFails value _ (popped.pop nonempty) fault after rest

/-- A read fails when the variable has no value, and pops nothing. -/
theorem getGlobalThen
    {slot : Nat} {next : Value → MachineM α}
    (undefined : allowed (.undefinedGlobal slot) count)
    (nextFails : ∀ value, FailsOnlyAs start allowed count (next value)) :
    FailsOnlyAs start allowed count (MachineM.getGlobal slot >>= next) := by
  intro machine popped fault after failed
  rcases bind_eq_error_iff.mp failed with absent | ⟨value, middle, found, rest⟩
  · obtain ⟨_, rfl, rfl⟩ := getGlobal_eq_error_iff.mp absent
    exact ⟨count, popped, undefined⟩
  · obtain ⟨_, rfl⟩ := getGlobal_eq_ok_iff.mp found
    exact nextFails value _ popped fault after rest

/-- A push fails when nothing is popped from a full stack. -/
theorem pushThen
    (bounded : start.stack.size ≤ start.capacity)
    (nonePopped :
      count = 0 → start.stack.size = start.capacity →
        allowed .stackOverflow count)
    (value : Value) (answer : α) :
    FailsOnlyAs start allowed count
      (do
        MachineM.push value
        return answer) := by
  intro machine popped fault after failed
  rcases bind_eq_error_iff.mp failed with overflow | ⟨_, _, _, ⟨⟩⟩
  obtain ⟨full, rfl, rfl⟩ := push_eq_error_iff.mp overflow
  have sizes := popped.size_eq
  have sameCapacity : machine.capacity = start.capacity := by
    rw [popped.2]
  exact ⟨count, popped, nonePopped (by omega) (by omega)⟩

/-- Two pops fail when too few values are left, and then if one of the values
is not an integer. -/
theorem popIntsThen
    {opcode : Opcode} {next : Int64 × Int64 → MachineM α}
    (allPopped :
      ∀ popped < 2, start.stack.size = popped → allowed .stackUnderflow popped)
    (notInts :
      ∀ left right, allowed (.unsupportedOperands opcode left right) 2)
    (nextFails : ∀ operands, FailsOnlyAs start allowed 2 (next operands)) :
    FailsOnlyAs start allowed 0 (MachineM.popInts opcode >>= next) := by
  simp only [MachineM.popInts, bind_assoc]
  refine popThen (allPopped 0 Nat.two_pos) fun right =>
    popThen (allPopped 1 Nat.one_lt_two) fun left => ?_
  cases left with
  | int left =>
      cases right with
      | int right =>
          exact nextFails (left, right)
      | bool truth =>
          exact throwThen (notInts _ _) next
      | null =>
          exact throwThen (notInts _ _) next
  | bool truth =>
      exact throwThen (notInts _ _) next
  | null =>
      exact throwThen (notInts _ _) next

end FailsOnlyAs

open FailsOnlyAs in
/-- An instruction fails only in the ways that are listed, when no more values
are on the stack than it has room for. -/
theorem Instr.execute_failsOnlyAs
    (instr : Instr) (constants : Array Value) (next : Nat) {machine : Machine}
    (bounded : machine.stack.size ≤ machine.capacity) :
    FailsOnlyAs machine (instr.Fails machine) 0
      (instr.execute constants next) := by
  obtain ⟨opcode, operands⟩ := instr
  let fails := Instr.Fails ⟨opcode, operands⟩ machine
  have underflow (popped : Nat) (tooFew : popped < opcode.pops)
      (allPopped : machine.stack.size = popped) :
      fails .stackUnderflow popped := by
    rw [← allPopped] at tooFew ⊢
    exact .underflow tooFew
  have grow (grows : opcode.grows) (value : Value) :
      FailsOnlyAs machine fails 0
        (do
          MachineM.push value
          return next) :=
    pushThen bounded (fun _ full => .overflow grows full) value next
  have replace {count : Nat} (value : Value) :
      FailsOnlyAs machine fails (count + 1)
        (do
          MachineM.push value
          return next) :=
    pushThen bounded nofun value next
  cases opcode with
  | constant =>
      simp only [execute]
      cases constants[Instr.operand ⟨.constant, operands⟩]? with
      | some value =>
          exact grow rfl value
      | none =>
          exact throwThen (.unknownConstant rfl) _
  | pop =>
      exact popThen (underflow 0 Nat.one_pos) fun _ => change _ _
  | add | sub | mul | greaterThan =>
      exact popIntsThen underflow (.unsupportedOperands rfl) fun _ => replace _
  | div =>
      refine popIntsThen underflow (.unsupportedOperands rfl) fun operands => ?_
      by_cases isZero : operands.2 = 0
      · simp only [if_pos isZero]
        exact throwThen (.divisionByZero rfl) _
      · simp only [if_neg isZero]
        exact replace _
  | equal | notEqual =>
      exact popThen (underflow 0 Nat.two_pos) fun _ =>
        popThen (underflow 1 Nat.one_lt_two) fun _ => replace _
  | bang =>
      exact popThen (underflow 0 Nat.one_pos) fun _ => replace _
  | minus =>
      refine popThen (underflow 0 Nat.one_pos) fun operand => ?_
      cases operand with
      | int number =>
          exact replace _
      | bool truth =>
          exact throwThen (.unsupportedNegation rfl _) _
      | null =>
          exact throwThen (.unsupportedNegation rfl _) _
  | pushTrue | pushFalse | pushNull =>
      exact grow rfl _
  | jump =>
      exact pure _
  | jumpNotTruthy =>
      exact popThen (underflow 0 Nat.one_pos) fun _ => pure _
  | setGlobal =>
      exact popThen (underflow 0 Nat.one_pos) fun _ => change _ _
  | getGlobal =>
      exact getGlobalThen (.undefinedGlobal rfl) fun value => grow rfl value

/-- A step that fails has popped values and done nothing else: none if there is
no instruction, and otherwise as many as the instruction there has when it fails
in this way. -/
theorem Bytecode.fails_of_step
    {bytecode : Bytecode} {offset : Nat} {machine after : Machine}
    {error : RuntimeError}
    (bounded : machine.stack.size ≤ machine.capacity)
    (failed : bytecode.step offset machine = .failed error after) :
    ∃ count,
      machine.Popped count after ∧
        ((count = 0 ∧ ∃ source, error.fault = .decode source) ∨
          ∃ instr next,
            bytecode.code.fetch offset = .instr instr next ∧
              instr.Fails machine error.fault count) := by
  simp only [step] at failed
  split at failed
  case h_1 =>
    cases failed
  case h_2 source _ =>
    cases failed
    exact ⟨0, .refl machine, .inl ⟨rfl, source, rfl⟩⟩
  case h_3 instr next fetched =>
    split at failed
    case h_1 =>
      cases failed
    case h_2 executed =>
      cases failed
      obtain ⟨count, popped, fails⟩ :=
        instr.execute_failsOnlyAs bytecode.constants next bounded machine
          (.refl machine) _ _ executed
      exact ⟨count, popped, .inr ⟨instr, next, fetched, fails⟩⟩

/-- The numbers of cells in use before a failing instruction and after it. -/
def Fault.Leaves (fault : Fault) (capacity before after : Nat) : Prop :=
  match fault with
  | .stackOverflow =>
      after = before ∧ before = capacity
  | .stackUnderflow =>
      after = 0
  | .decode _ | .unknownConstant _ | .undefinedGlobal _ =>
      after = before
  | .unsupportedNegation _ =>
      after + 1 = before
  | .unsupportedOperands _ _ _ | .divisionByZero =>
      after + 2 = before

/-- What a failing instruction leaves in memory. -/
structure Memory.FailsTo
    (bytecode : Bytecode) (before : Memory) (error : RuntimeError)
    (after : Memory) : Prop where
  globals : after.globals = before.globals
  lastPopped : after.lastPopped = before.lastPopped
  /-- The cells that stay in use hold what they held. -/
  cells : ∀ index < after.used, after.cells[index]? = before.cells[index]?
  used : error.fault.Leaves before.cells.size before.used after.used
  /-- Only an instruction that pushes without popping overflows the stack. -/
  overflows :
    error.fault = .stackOverflow →
      ∃ instr next,
        bytecode.code.fetch error.offset = .instr instr next ∧
          instr.opcode ∈
            [.constant, .pushTrue, .pushFalse, .pushNull, .getGlobal]

/-- The number of popped values is the one that the fault leaves. -/
theorem Instr.Fails.leaves
    {instr : Instr} {machine after : Machine} {fault : Fault} {count : Nat}
    (fails : instr.Fails machine fault count)
    (popped : machine.Popped count after) :
    fault.Leaves machine.capacity machine.stack.size after.stack.size := by
  have sizes := popped.size_eq
  cases fails with
  | overflow grows full =>
      exact ⟨sizes, full⟩
  | underflow tooFew =>
      exact Nat.add_eq_right.mp sizes
  | unknownConstant looksUp =>
      exact sizes
  | undefinedGlobal reads =>
      exact sizes
  | unsupportedOperands takesTwo left right =>
      exact sizes
  | unsupportedNegation negates operand =>
      exact sizes
  | divisionByZero divides =>
      exact sizes

/-- The operations that put a value on the stack without taking one off. -/
theorem Opcode.mem_of_grows {opcode : Opcode} (grows : opcode.grows) :
    opcode ∈ [.constant, .pushTrue, .pushFalse, .pushNull, .getGlobal] := by
  cases opcode <;> first | decide | cases grows

/-- A run that fails has come to the instruction at the offset of its error,
which has a bounded effect. -/
theorem failure_has_bounded_effect
    {bytecode : Bytecode} {start after : Memory} {fuel : Nat}
    {error : RuntimeError}
    (fits : start.used ≤ start.cells.size)
    (failed : bytecode.runInMemory fuel start = .failed error after) :
    ∃ steps < fuel, ∃ before,
      bytecode.runInMemory steps start = .running error.offset before ∧
        bytecode.stepInMemory error.offset before = .failed error after ∧
        before.FailsTo bytecode error after := by
  obtain ⟨steps, below, before, comes, stops, fitsBefore⟩ :=
    Bytecode.exists_failing_step fits failed
  obtain ⟨failedStep, _, fitsAfter⟩ :=
    Bytecode.step_of_failedInMemory fitsBefore stops
  have bounded :
      before.machine.stack.size ≤ before.machine.capacity := by
    rw [before.size_stack_machine fitsBefore]
    exact fitsBefore
  obtain ⟨count, popped, fails⟩ := Bytecode.fails_of_step bounded failedStep
  have sizes := popped.size_eq
  rw [before.size_stack_machine fitsBefore,
    after.size_stack_machine fitsAfter] at sizes
  refine ⟨steps, below, before, comes, stops, ?globals, ?lastPopped, ?cells,
    ?used, ?overflows⟩
  case globals =>
    exact congrArg Machine.globals popped.2
  case lastPopped =>
    exact congrArg Machine.lastPopped popped.2
  case cells =>
    intro index inUse
    have stays : index < before.used := by
      omega
    rw [← Memory.getElem?_stack_machine inUse, popped.getElem?_stack,
      before.getElem?_stack_machine stays]
    rw [after.size_stack_machine fitsAfter]
    exact inUse
  case used =>
    rcases fails with ⟨rfl, source, isDecode⟩ | ⟨instr, next, _, fails⟩
    · rw [isDecode]
      exact sizes
    · have leaves := fails.leaves popped
      rwa [before.size_stack_machine fitsBefore,
        after.size_stack_machine fitsAfter] at leaves
  case overflows =>
    intro overflows
    rcases fails with ⟨rfl, source, isDecode⟩ | ⟨instr, next, fetched, fails⟩
    · rw [isDecode] at overflows
      cases overflows
    · rw [overflows] at fails
      cases fails with
      | overflow grows full =>
          exact ⟨instr, next, fetched, Opcode.mem_of_grows grows⟩

/-- The sum of a truth value and the first constant, which is five. -/
def mismatchedSum : Bytecode :=
  ⟨⟨#[6, 0, 0, 0, 1]⟩, #[.int 5]⟩

/-- The sum takes both of its operands off before it fails. The value below them
stays. -/
theorem mismatchedSum_has_bounded_effect :
    let start : Memory := ⟨#[.int 1, .null, .null], 1, #[.int 4], 0, none⟩
    let error : RuntimeError :=
      ⟨4, .unsupportedOperands .add "BOOLEAN" "INTEGER"⟩
    let after : Memory :=
      ⟨#[.int 1, .bool true, .int 5], 1, #[.int 4], 4, none⟩
    start.used ≤ start.cells.size ∧
      mismatchedSum.runInMemory 3 start = .failed error after ∧
      ∃ steps < 3, ∃ before,
        mismatchedSum.runInMemory steps start = .running 4 before ∧
          mismatchedSum.stepInMemory 4 before = .failed error after ∧
          before.FailsTo mismatchedSum error after := by
  intro start error after
  have fits : start.used ≤ start.cells.size := by
    decide
  have failed : mismatchedSum.runInMemory 3 start = .failed error after := by
    decide +kernel
  exact ⟨fits, failed, failure_has_bounded_effect fits failed⟩

end StackLang
