import StackLang.Assembler
import StackLang.Bytecode
import StackLang.Scope

namespace StackLang

/-!
# Compilations

A compilation is the state of compiling one unit: the code laid down so far,
the pool of constants and the scope. An instruction that needs a constant or a
slot beyond `maxOperand`, the largest number in two bytes, cannot be written.

The operations here are the steps that code generation is made of. A step that
fails leaves behind all that was done before it.
-/

/-- Why a program cannot be compiled. -/
inductive CompileError where
  /-- No instruction implements this operator. -/
  | unknownOperator (operator : String)
  /-- The name is used before any definition of it. -/
  | undefinedVariable (name : String)
  /-- There are no instructions for this kind of statement or expression. -/
  | unsupportedNode (kind : String)
  /-- The next constant would get an index that no operand can hold. -/
  | constantPoolOverflow (index : Nat)
  /-- The next definition would get a slot that no operand can hold. -/
  | tooManyGlobals (slot : Nat)
  /-- An instruction cannot be written, such as a jump to a distant offset. -/
  | encode (error : EncodeError)
  deriving DecidableEq

/-- The largest operand of two bytes. -/
def maxOperand : Nat :=
  65535

/-- The wording of a compile error. -/
def CompileError.message : CompileError → String
  | .unknownOperator operator =>
      s!"unknown operator {operator}"
  | .undefinedVariable name =>
      s!"undefined variable {name}"
  | .unsupportedNode kind =>
      s!"unsupported node: {kind}"
  | .constantPoolOverflow index =>
      s!"constant pool overflow: index {index} exceeds {maxOperand}"
  | .tooManyGlobals slot =>
      s!"too many globals: slot {slot} exceeds {maxOperand}"
  | .encode error =>
      error.message

/-- The state of compiling one unit. -/
structure Compilation where
  assembler : Assembler
  constants : Array Value
  scope : Scope

namespace Compilation

/-- A compilation that goes on with the scope and the constants of an earlier
one, at the start of new code. -/
def resume (scope : Scope) (constants : Array Value) : Compilation where
  assembler := .empty
  constants := constants
  scope := scope

/-- A compilation in which nothing is defined yet. -/
def start : Compilation :=
  resume .empty #[]

/-- What is compiled so far. -/
def bytecode (compilation : Compilation) : Bytecode where
  code := compilation.assembler.code
  constants := compilation.constants

end Compilation

/-- Steps of a compilation. A failure keeps the state that it was met in. -/
abbrev CompileM :=
  EStateM CompileError Compilation

namespace CompileM

/-- Change the code in the making. -/
def modifyAssembler (change : Assembler → Assembler) : CompileM PUnit :=
  modify fun compilation =>
    { compilation with assembler := change compilation.assembler }

/-- The offset at which the next instruction will begin. -/
def here : CompileM Nat :=
  return (← get).assembler.offset

/-- Lay down one instruction. -/
def emit (opcode : Opcode) (operands : List Nat) : CompileM PUnit := do
  let instr := Instr.mk opcode operands
  match instr.encode with
  | .error error =>
      throw (.encode error)
  | .ok encoded =>
      modifyAssembler (·.emit instr encoded)

/-- Give the instruction at an offset another operand. -/
def patch (offset operand : Nat) : CompileM PUnit := do
  modifyAssembler (·.notePatch offset operand)
  match (← get).assembler.code.patchedBytes offset operand with
  | .error error =>
      throw (.encode error)
  | .ok encoded =>
      modifyAssembler (·.overwrite offset encoded)

/-- Add a value to the pool of constants and give its index. -/
def addConstant (value : Value) : CompileM Nat := do
  let index := (← get).constants.size
  if maxOperand < index then
    throw (.constantPoolOverflow index)
  modify fun compilation =>
    { compilation with constants := compilation.constants.push value }
  return index

/-- The slot that a name denotes. -/
def resolve (name : String) : CompileM Nat := do
  match (← get).scope.resolve? name with
  | some slot =>
      return slot
  | none =>
      throw (.undefinedVariable name)

/-- Let a name denote the next unused slot, and give that slot. A failure binds
nothing. -/
def define (name : String) : CompileM Nat := do
  let slot := (← get).scope.count
  if maxOperand < slot then
    throw (.tooManyGlobals slot)
  modify fun compilation =>
    { compilation with scope := compilation.scope.define name }
  return slot

/--
End a block that has to leave one value on the stack.

A block whose last instruction discards a value keeps that value instead; any
other block, such as an empty one, leaves null.
-/
def keepValue : CompileM PUnit := do
  if (← get).assembler.endsWith .pop then
    modifyAssembler (·.retract)
  else
    emit .pushNull []

end CompileM

end StackLang
