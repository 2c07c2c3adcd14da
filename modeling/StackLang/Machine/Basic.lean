import StackLang.Instr.Decoding
import StackLang.Value

namespace StackLang

/-!
# Machine state

The machine has an operand stack of limited capacity and a store of global
variables that grows as slots are written. It also keeps the value that was
discarded last, which is the value of the last expression statement.

The operations here are the steps that executing an instruction is made of. A
step that fails leaves behind all that was done before it.
-/

/-- The state of the machine. -/
structure Machine where
  /-- The largest number of values on the stack. -/
  capacity : Nat
  /-- The values on the stack, the topmost one at the end. -/
  stack : Array Value
  /-- The global variables by slot. -/
  globals : Array Value
  /-- The value discarded last, if there was one. -/
  lastPopped : Option Value
  deriving DecidableEq

/-- What can go wrong in one instruction. -/
inductive Fault where
  /-- A value is pushed onto a full stack. -/
  | stackOverflow
  /-- A value is popped from the empty stack. -/
  | stackUnderflow
  /-- There is no instruction to execute. -/
  | decode (source : DecodeError)
  /-- The pool has no constant of this index. -/
  | unknownConstant (index : Nat)
  /-- No slot as high as this one was ever written. -/
  | undefinedGlobal (index : Nat)
  /-- An operation on integers met the named types. -/
  | unsupportedOperands (opcode : Opcode) (left right : String)
  /-- A value of the named type has no arithmetic negation. -/
  | unsupportedNegation (operand : String)
  | divisionByZero
  deriving DecidableEq

/-- A fault, and the offset of the instruction that it happened in. -/
structure RuntimeError where
  offset : Nat
  fault : Fault
  deriving DecidableEq

namespace RuntimeError

/-- The wording of a runtime error. -/
def message (error : RuntimeError) : String :=
  let offset := error.offset
  match error.fault with
  | .stackOverflow =>
      s!"stack overflow at offset {offset}"
  | .stackUnderflow =>
      s!"stack underflow at offset {offset}"
  | .decode source =>
      s!"cannot decode instruction at offset {offset}: {source.message}"
  | .unknownConstant index =>
      s!"constant {index} out of range at offset {offset}"
  | .undefinedGlobal index =>
      s!"global {index} is undefined at offset {offset}"
  | .unsupportedOperands opcode left right =>
      s!"unsupported types for {opcode.name}: {left} {right} at offset {offset}"
  | .unsupportedNegation operand =>
      s!"unsupported type for negation: {operand} at offset {offset}"
  | .divisionByZero =>
      s!"division by zero at offset {offset}"

/-- The decoding error behind a runtime error, if that is what it reports. -/
def source? (error : RuntimeError) : Option DecodeError :=
  match error.fault with
  | .decode source =>
      some source
  | _ =>
      none

end RuntimeError

/-- The stack capacity of a machine unless another one is asked for. -/
def defaultCapacity : Nat :=
  2048

namespace Machine

/-- A machine with an empty stack of the given capacity, and without globals. -/
def ofCapacity (capacity : Nat) : Machine where
  capacity := capacity
  stack := #[]
  globals := #[]
  lastPopped := none

/-- A machine with the default capacity. -/
def initial : Machine :=
  ofCapacity defaultCapacity

/-- A machine with the default capacity that finds globals from before. -/
def withGlobals (globals : Array Value) : Machine :=
  { initial with globals }

/-- The number of values on the stack. -/
def depth (machine : Machine) : Nat :=
  machine.stack.size

/-- The topmost value on the stack. -/
def top? (machine : Machine) : Option Value :=
  machine.stack.back?

/-- The value of the last expression statement, or null if there was none. -/
def result (machine : Machine) : Value :=
  machine.lastPopped.getD .null

end Machine

/-- Write a slot of a store of globals. A slot beyond its end is added to it,
with null in the slots between. -/
def storeGlobal (globals : Array Value) (slot : Nat) (value : Value) :
    Array Value :=
  if slot < globals.size then
    globals.setIfInBounds slot value
  else
    (globals ++ Array.replicate (slot - globals.size) Value.null).push value

/-- Steps of the machine. A failure keeps the state that it was met in. -/
abbrev MachineM :=
  EStateM Fault Machine

namespace MachineM

/-- Push a value, unless the stack is full. -/
def push (value : Value) : MachineM PUnit := do
  let machine ← get
  if machine.stack.size < machine.capacity then
    set { machine with stack := machine.stack.push value }
  else
    throw .stackOverflow

/-- Pop the topmost value. -/
def pop : MachineM Value := do
  match (← get).stack.back? with
  | some value =>
      modify fun machine => { machine with stack := machine.stack.pop }
      return value
  | none =>
      throw .stackUnderflow

/-- Pop two integers, the right one first. Both are gone even if one of them
turns out not to be an integer. -/
def popInts (opcode : Opcode) : MachineM (Int64 × Int64) := do
  let right ← pop
  let left ← pop
  match left, right with
  | .int left, .int right =>
      return (left, right)
  | _, _ =>
      throw (.unsupportedOperands opcode left.typeName right.typeName)

/-- Keep a value as the one discarded last. -/
def setLastPopped (value : Value) : MachineM PUnit :=
  modify fun machine => { machine with lastPopped := some value }

/-- Write a global variable. -/
def setGlobal (slot : Nat) (value : Value) : MachineM PUnit :=
  modify fun machine =>
    { machine with globals := storeGlobal machine.globals slot value }

/-- Read a global variable. -/
def getGlobal (slot : Nat) : MachineM Value := do
  match (← get).globals[slot]? with
  | some value =>
      return value
  | none =>
      throw (.undefinedGlobal slot)

end MachineM

end StackLang
