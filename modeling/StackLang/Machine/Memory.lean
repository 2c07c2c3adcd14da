import StackLang.Machine.Execution

namespace StackLang

/-!
# Memory

In memory the stack of a machine is a fixed row of cells. The lowest cells are
in use; a value that is popped stays behind in its cell until another one is
written over it. A machine also keeps the offset of the instruction that it
executes, from which a failure takes its own.

Every access to an array is checked here. An index or a range that is not within
the array stops the run, which is an ending of its own and no runtime error.
-/

/-- A machine as it lies in memory. -/
structure Memory where
  /-- The cells of the stack, in use or not. -/
  cells : Array Value
  /-- The number of cells in use, and so the index of the next free one. -/
  used : Nat
  /-- The global variables by slot. -/
  globals : Array Value
  /-- The offset of the instruction that is executed. -/
  current : Nat
  /-- The value discarded last, if there was one. -/
  lastPopped : Option Value
  deriving DecidableEq

namespace Memory

/-- Memory for a stack of the given capacity, none of it in use. -/
def ofCapacity (capacity : Nat) : Memory where
  cells := Array.replicate capacity .null
  used := 0
  globals := #[]
  current := 0
  lastPopped := none

/-- Memory for a stack of the given capacity, with globals from before. -/
def resume (capacity : Nat) (globals : Array Value) : Memory :=
  { ofCapacity capacity with globals }

/-- The machine that lies in memory. Cells that are not in use are no part of
it. -/
def machine (memory : Memory) : Machine where
  capacity := memory.cells.size
  stack := memory.cells.extract 0 memory.used
  globals := memory.globals
  lastPopped := memory.lastPopped

/-- No more cells are in use than there are. -/
def Fits (memory : Memory) : Prop :=
  memory.used ≤ memory.cells.size

end Memory

/-- Why a step in memory is not completed. -/
inductive Abort where
  /-- An index or a range is not within its array. -/
  | outOfBounds
  /-- The instruction fails. -/
  | failed (error : RuntimeError)
  deriving DecidableEq

/-- Steps of a machine in memory. A step that stops keeps what was done. -/
abbrev MemoryM :=
  EStateM Abort Memory

namespace MemoryM

/-- Fail at the instruction that is executed. -/
def fail {α : Type} (fault : Fault) : MemoryM α := do
  throw (.failed ⟨(← get).current, fault⟩)

/-- Read the entry at an index. -/
def readAt {α : Type} (entries : Array α) (index : Nat) : MemoryM α :=
  match entries[index]? with
  | some entry =>
      return entry
  | none =>
      throw .outOfBounds

/-- Write a cell of the stack. -/
def writeCell (index : Nat) (value : Value) : MemoryM PUnit := do
  if index < (← get).cells.size then
    modify fun memory =>
      { memory with cells := memory.cells.setIfInBounds index value }
  else
    throw .outOfBounds

/-- Write a variable that has a slot in the store. -/
def writeSlot (slot : Nat) (value : Value) : MemoryM PUnit := do
  if slot < (← get).globals.size then
    modify fun memory =>
      { memory with globals := memory.globals.setIfInBounds slot value }
  else
    throw .outOfBounds

/-- Push a value, unless all cells are in use. -/
def push (value : Value) : MemoryM PUnit := do
  let used := (← get).used
  if (← get).cells.size ≤ used then
    fail .stackOverflow
  else
    writeCell used value
    modify fun memory => { memory with used := used + 1 }

/-- Pop the topmost value. -/
def pop : MemoryM Value := do
  let used := (← get).used
  if used = 0 then
    fail .stackUnderflow
  else
    modify fun memory => { memory with used := used - 1 }
    readAt (← get).cells (used - 1)

/-- The topmost value on the stack, if there is one. -/
def top? : MemoryM (Option Value) := do
  let used := (← get).used
  if used = 0 then
    return none
  else
    return some (← readAt (← get).cells (used - 1))

/-- Pop two integers, the right one first. -/
def popInts (opcode : Opcode) : MemoryM (Int64 × Int64) := do
  let right ← pop
  let left ← pop
  match left, right with
  | .int left, .int right =>
      return (left, right)
  | _, _ =>
      fail (.unsupportedOperands opcode left.typeName right.typeName)

/-- Keep a value as the one discarded last. -/
def setLastPopped (value : Value) : MemoryM PUnit :=
  modify fun memory => { memory with lastPopped := some value }

/-- Write a global variable, after the store has grown to have its slot. -/
def setGlobal (slot : Nat) (value : Value) : MemoryM PUnit := do
  if (← get).globals.size ≤ slot then
    modify fun memory =>
      { memory with
        globals :=
          memory.globals ++
            Array.replicate (slot + 1 - memory.globals.size) .null }
  writeSlot slot value

/-- Read a global variable. -/
def getGlobal (slot : Nat) : MemoryM Value := do
  match (← get).globals[slot]? with
  | some value =>
      return value
  | none =>
      fail (.undefinedGlobal slot)

end MemoryM

/-- The bytes of an array from an offset on. -/
structure Window where
  bytes : Array UInt8
  start : Nat

/-- The number of bytes in a window. -/
def Window.size (window : Window) : Nat :=
  window.bytes.size - window.start

namespace MemoryM

/-- The bytes from an offset on, which may be none. -/
def openWindow (bytes : Array UInt8) (start : Nat) : MemoryM Window :=
  if start ≤ bytes.size then
    return ⟨bytes, start⟩
  else
    throw .outOfBounds

/-- Read the bytes of a window from one index up to another. -/
def readRange (window : Window) (first last : Nat) : MemoryM (List UInt8) :=
  if first ≤ last ∧ last ≤ window.size then
    return (window.bytes.extract
      (window.start + first) (window.start + last)).toList
  else
    throw .outOfBounds

/-- Read one word per width, each where its predecessor ended. The answer holds
the words and the index after the last of them. -/
def readOperands (window : Window) :
    (first : Nat) → List Nat → MemoryM (List Nat × Nat)
  | first, [] =>
      return ([], first)
  | first, width :: widths => do
      let bytes ← readRange window first (first + width)
      let (words, last) ← readOperands window (first + width) widths
      return (bigEndianWord bytes :: words, last)

/-- Read the instruction at an offset, and the number of its operand bytes. -/
def fetch (code : Code) (offset : Nat) : MemoryM (Instr × Nat) := do
  match Opcode.ofByte (← readAt code.bytes offset) with
  | .error source =>
      throw (.failed ⟨offset, .decode source⟩)
  | .ok opcode =>
      let layout := opcode.layout
      let window ← openWindow code.bytes (offset + 1)
      if window.size < layout.operandSize then
        throw (.failed ⟨offset, .decode
          (.truncated layout.name layout.operandSize window.size)⟩)
      else
        let (operands, read) ← readOperands window 0 layout.operandWidths
        return (⟨opcode, operands⟩, read)

/-- The first operand of an instruction. -/
def firstOperand (instr : Instr) : MemoryM Nat :=
  match instr.operands with
  | operand :: _ =>
      return operand
  | [] =>
      throw .outOfBounds

/-- Replace two integers by their combination. -/
def combine
    (opcode : Opcode) (operation : Int64 → Int64 → Value) : MemoryM PUnit := do
  let (left, right) ← popInts opcode
  push (operation left right)

/-- Replace two values by whether they compare as asked. -/
def compare (holds : Value → Value → Bool) : MemoryM PUnit := do
  let right ← pop
  let left ← pop
  push (.bool (holds left right))

end MemoryM

open MemoryM

/-- Execute an instruction in memory. The answer is the offset to go on at. -/
def Instr.executeInMemory
    (instr : Instr) (constants : Array Value) (next : Nat) : MemoryM Nat := do
  match instr.opcode with
  | .constant =>
      let index ← firstOperand instr
      match constants[index]? with
      | some value =>
          push value
      | none =>
          fail (.unknownConstant index)
      return next
  | .pop =>
      setLastPopped (← pop)
      return next
  | .add =>
      combine .add fun left right => .int (left + right)
      return next
  | .sub =>
      combine .sub fun left right => .int (left - right)
      return next
  | .mul =>
      combine .mul fun left right => .int (left * right)
      return next
  | .div =>
      let (left, right) ← popInts .div
      if right = 0 then
        fail .divisionByZero
      else
        push (.int (left / right))
      return next
  | .minus =>
      match ← pop with
      | .int number =>
          push (.int (-number))
      | other =>
          fail (.unsupportedNegation other.typeName)
      return next
  | .equal =>
      compare fun left right => left = right
      return next
  | .notEqual =>
      compare fun left right => left ≠ right
      return next
  | .greaterThan =>
      combine .greaterThan fun left right => .bool (right < left)
      return next
  | .bang =>
      push (← pop).not
      return next
  | .pushTrue =>
      push (.bool true)
      return next
  | .pushFalse =>
      push (.bool false)
      return next
  | .pushNull =>
      push .null
      return next
  | .jump =>
      firstOperand instr
  | .jumpNotTruthy =>
      let condition ← pop
      if condition.isTruthy then
        return next
      else
        firstOperand instr
  | .setGlobal =>
      let value ← pop
      setGlobal (← firstOperand instr) value
      return next
  | .getGlobal =>
      push (← getGlobal (← firstOperand instr))
      return next

/-- How far a run in memory has come. -/
inductive MemoryProgress where
  /-- The run goes on at an offset. -/
  | running (offset : Nat) (memory : Memory)
  /-- The run is past the end of the code. -/
  | finished (memory : Memory)
  /-- The run stopped at an error. -/
  | failed (error : RuntimeError) (memory : Memory)
  /-- The run stopped at an access that is not within its array. -/
  | outOfBounds (memory : Memory)
  deriving DecidableEq

/-- Memory as the run has left it so far. -/
def MemoryProgress.memory : MemoryProgress → Memory
  | .running _ memory | .finished memory | .failed _ memory
  | .outOfBounds memory =>
      memory

/-- The progress of the machine that lies in memory, unless the run stopped out
of bounds. -/
def MemoryProgress.progress? : MemoryProgress → Option Progress
  | .running offset memory =>
      some (.running offset memory.machine)
  | .finished memory =>
      some (.finished memory.machine)
  | .failed error memory =>
      some (.failed error memory.machine)
  | .outOfBounds _ =>
      none

namespace Bytecode

/-- Fetch the instruction at an offset and execute it. -/
def executeAt (bytecode : Bytecode) (offset : Nat) : MemoryM Nat := do
  modify fun memory => { memory with current := offset }
  let (instr, read) ← fetch bytecode.code offset
  instr.executeInMemory bytecode.constants (offset + 1 + read)

/-- One step in memory of a run that has come to an offset. -/
def stepInMemory
    (bytecode : Bytecode) (offset : Nat) (memory : Memory) : MemoryProgress :=
  if offset < bytecode.code.size then
    match bytecode.executeAt offset memory with
    | .ok target memory =>
        .running target memory
    | .error (.failed error) memory =>
        .failed error memory
    | .error .outOfBounds memory =>
        .outOfBounds memory
  else
    .finished memory

/-- Run in memory from an offset for at most `fuel` steps. -/
def runInMemoryFrom (bytecode : Bytecode) :
    (fuel offset : Nat) → Memory → MemoryProgress
  | 0, offset, memory =>
      .running offset memory
  | fuel + 1, offset, memory =>
      match bytecode.stepInMemory offset memory with
      | .running offset memory =>
          bytecode.runInMemoryFrom fuel offset memory
      | ended =>
          ended

/-- Run in memory from the start of the code for at most `fuel` steps. -/
def runInMemory
    (bytecode : Bytecode) (fuel : Nat) (memory : Memory) : MemoryProgress :=
  bytecode.runInMemoryFrom fuel 0 memory

/-- Run in memory once for each number of steps. Each run begins at the start of
the code with memory as the run before it has left it. -/
def rerunInMemory
    (bytecode : Bytecode) (runs : List Nat) (memory : Memory) : Memory :=
  runs.foldl (fun memory fuel => (bytecode.runInMemory fuel memory).memory)
    memory

end Bytecode

end StackLang
