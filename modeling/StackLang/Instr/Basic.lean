import StackLang.Opcode

namespace StackLang

/-!
# Instructions

An instruction is an operation together with its operands. The operation's
layout says how many operands belong to it and how wide each one is.
-/

/-- One instruction of the stack machine. -/
structure Instr where
  opcode : Opcode
  operands : List Nat
  deriving DecidableEq

namespace Instr

/-- The first operand, or zero for an instruction that takes none. -/
def operand (instr : Instr) : Nat :=
  instr.operands.headD 0

/-- The number of bytes that an instruction of this operation occupies. -/
def size (instr : Instr) : Nat :=
  1 + instr.opcode.layout.operandSize

/-- An instruction as a listing shows it: name and operands, space-separated. -/
def render (instr : Instr) : String :=
  instr.operands.foldl
    (fun text operand => text ++ " " ++ toString operand)
    instr.opcode.name

/-- An instruction as a log line shows it: name and bracketed operands. -/
def renderBracketed (instr : Instr) : String :=
  instr.opcode.name ++ " [" ++
    ", ".intercalate (instr.operands.map toString) ++ "]"

end Instr

end StackLang
