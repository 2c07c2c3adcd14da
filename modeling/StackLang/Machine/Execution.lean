import StackLang.Bytecode
import StackLang.Machine.Basic

namespace StackLang

/-!
# Execution

The machine executes one instruction after the other until it is past the end of
the code. Integers are 64-bit: sums, differences, products and negations wrap
around, a quotient is rounded towards zero, and the only quotient out of range,
that of the least integer by minus one, wraps around as well.
-/

open MachineM

/-- Execute an instruction. The answer is the offset to go on at, which is the
offset `next` of the following instruction unless a jump is taken. -/
def Instr.execute
    (instr : Instr) (constants : Array Value) (next : Nat) : MachineM Nat := do
  match instr.opcode with
  | .constant =>
      match constants[instr.operand]? with
      | some value =>
          push value
      | none =>
          throw (.unknownConstant instr.operand)
      return next
  | .pop =>
      setLastPopped (← pop)
      return next
  | .add =>
      let (left, right) ← popInts .add
      push (.int (left + right))
      return next
  | .sub =>
      let (left, right) ← popInts .sub
      push (.int (left - right))
      return next
  | .mul =>
      let (left, right) ← popInts .mul
      push (.int (left * right))
      return next
  | .div =>
      let (left, right) ← popInts .div
      if right = 0 then
        throw .divisionByZero
      push (.int (left / right))
      return next
  | .greaterThan =>
      let (left, right) ← popInts .greaterThan
      push (.bool (right < left))
      return next
  | .equal =>
      let right ← pop
      let left ← pop
      push (.bool (left = right))
      return next
  | .notEqual =>
      let right ← pop
      let left ← pop
      push (.bool (left ≠ right))
      return next
  | .bang =>
      push (← pop).not
      return next
  | .minus =>
      match ← pop with
      | .int number =>
          push (.int (-number))
      | other =>
          throw (.unsupportedNegation other.typeName)
      return next
  | .pushTrue =>
      push (.bool true)
      return next
  | .pushFalse =>
      push (.bool false)
      return next
  | .pushNull =>
      push .null
      return next
  | .jump =>
      return instr.operand
  | .jumpNotTruthy =>
      let condition ← pop
      return if condition.isTruthy then next else instr.operand
  | .setGlobal =>
      setGlobal instr.operand (← pop)
      return next
  | .getGlobal =>
      push (← getGlobal instr.operand)
      return next

/-- How far a run has come. -/
inductive Progress where
  /-- The run goes on at an offset. -/
  | running (offset : Nat) (machine : Machine)
  /-- The run is past the end of the code. -/
  | finished (machine : Machine)
  /-- The run stopped at an error, with the machine as the failing instruction
  left it. -/
  | failed (error : RuntimeError) (machine : Machine)
  deriving DecidableEq

/-- The machine as the run has left it so far. -/
def Progress.machine : Progress → Machine
  | .running _ machine =>
      machine
  | .finished machine =>
      machine
  | .failed _ machine =>
      machine

namespace Bytecode

/-- One step of a run that has come to an offset. -/
def step (bytecode : Bytecode) (offset : Nat) (machine : Machine) : Progress :=
  match bytecode.code.fetch offset with
  | .past =>
      .finished machine
  | .undecodable error =>
      .failed ⟨offset, .decode error⟩ machine
  | .instr instr next =>
      match instr.execute bytecode.constants next machine with
      | .ok target machine =>
          .running target machine
      | .error fault machine =>
          .failed ⟨offset, fault⟩ machine

/-- Run from an offset for at most `fuel` steps. Whoever gets `running` back may
go on from there. -/
def runFrom (bytecode : Bytecode) : (fuel offset : Nat) → Machine → Progress
  | 0, offset, machine =>
      .running offset machine
  | fuel + 1, offset, machine =>
      match bytecode.step offset machine with
      | .running offset machine =>
          bytecode.runFrom fuel offset machine
      | ended =>
          ended

/-- Run from the start of the code for at most `fuel` steps. -/
def run (bytecode : Bytecode) (fuel : Nat) (machine : Machine) : Progress :=
  bytecode.runFrom fuel 0 machine

end Bytecode

end StackLang
