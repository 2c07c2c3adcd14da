import StackLang.Instr.Basic

namespace StackLang

/-!
# Encoded instructions

An instruction is written as the byte of its operation followed by each operand
in big-endian order, in exactly the width that the layout gives it.
-/

/-- Why an instruction cannot be written. -/
inductive EncodeError where
  /-- The number of operands is not the one that the layout asks for. -/
  | operandCount (opcode : Opcode) (expected got : Nat)
  /-- An operand needs more bytes than its width. -/
  | operandOutOfRange (opcode : Opcode) (operand width : Nat)
  /-- No instruction with an operand can be rewritten at this offset. -/
  | badPatch (offset : Nat)
  deriving DecidableEq

/-- The wording of an encoding error. -/
def EncodeError.message : EncodeError → String
  | .operandCount opcode expected got =>
      s!"{opcode.name} expects {expected} operand(s), got {got}"
  | .operandOutOfRange opcode operand width =>
      s!"operand {operand} does not fit in {width} byte(s) for {opcode.name}"
  | .badPatch offset =>
      s!"cannot patch instruction at offset {offset}"

/-- The number of values that `width` bytes hold. -/
def byteBound : (width : Nat) → Nat
  | 0 =>
      1
  | width + 1 =>
      byteBound width * 256

/-- The lowest `width` bytes of a number, most significant first. -/
def bigEndianBytes (number : Nat) : (width : Nat) → List UInt8
  | 0 =>
      []
  | width + 1 =>
      (number / byteBound width).toUInt8 :: bigEndianBytes number width

namespace Instr

/-- Write operands in their widths, or report the first that does not fit. -/
def encodeOperands
    (opcode : Opcode) :
    List Nat → List Nat → Except EncodeError (List UInt8)
  | operand :: operands, width :: widths =>
      if operand < byteBound width then
        (encodeOperands opcode operands widths).map
          (bigEndianBytes operand width ++ ·)
      else
        .error (.operandOutOfRange opcode operand width)
  | _, _ =>
      .ok []

/-- The bytes of an instruction. Too many or too few operands are refused
before any of them is looked at. -/
def encode (instr : Instr) : Except EncodeError (List UInt8) :=
  let widths := instr.opcode.operandWidths
  if instr.operands.length = widths.length then
    (encodeOperands instr.opcode instr.operands widths).map
      (instr.opcode.byte :: ·)
  else
    .error
      (.operandCount instr.opcode widths.length instr.operands.length)

end Instr

/-- The bytes of the instruction whose operation a byte denotes. A byte that
denotes none is written as nothing, whatever the operands. -/
def encodeByte
    (byte : UInt8) (operands : List Nat) :
    Except EncodeError (List UInt8) :=
  match Opcode.ofByte? byte with
  | some opcode =>
      (Instr.mk opcode operands).encode
  | none =>
      .ok []

end StackLang
