namespace StackLang

/-!
# Operation codes

An instruction begins with one byte that names its operation. The operation
fixes the instruction's `Layout`: its name in listings and the width in bytes
of each operand that follows.
-/

/-- How the instructions of one operation are laid out in memory. -/
structure Layout where
  name : String
  operandWidths : List Nat
  deriving DecidableEq

/-- The number of operand bytes that follow the operation byte. -/
def Layout.operandSize (layout : Layout) : Nat :=
  layout.operandWidths.foldr (· + ·) 0

/-- The operations of the stack machine. -/
inductive Opcode where
  /-- Push the constant whose index is the operand. -/
  | constant
  /-- Replace the two topmost integers by their sum. -/
  | add
  /-- Discard the top of the stack. -/
  | pop
  /-- Replace the two topmost integers by the lower one less the upper one. -/
  | sub
  /-- Replace the two topmost integers by their product. -/
  | mul
  /-- Replace the two topmost integers by the lower one divided by the upper one. -/
  | div
  /-- Push the truth value true. -/
  | pushTrue
  /-- Push the truth value false. -/
  | pushFalse
  /-- Replace the two topmost values by whether they are equal. -/
  | equal
  /-- Replace the two topmost values by whether they differ. -/
  | notEqual
  /-- Replace the two topmost integers by whether the lower one is greater. -/
  | greaterThan
  /-- Negate the topmost integer. -/
  | minus
  /-- Replace the topmost value by its logical negation. -/
  | bang
  /-- Pop a condition and go to the offset in the operand if it is falsy. -/
  | jumpNotTruthy
  /-- Go to the offset in the operand. -/
  | jump
  /-- Push null. -/
  | pushNull
  /-- Push the global variable whose slot is the operand. -/
  | getGlobal
  /-- Pop a value into the global variable whose slot is the operand. -/
  | setGlobal
  deriving DecidableEq

namespace Opcode

/-- Every operation, at the index that its byte denotes. -/
def all : Array Opcode :=
  #[.constant, .add, .pop, .sub, .mul, .div, .pushTrue, .pushFalse, .equal,
    .notEqual, .greaterThan, .minus, .bang, .jumpNotTruthy, .jump, .pushNull,
    .getGlobal, .setGlobal]

/-- The byte that denotes an operation. -/
def byte : Opcode → UInt8
  | .constant => 0
  | .add => 1
  | .pop => 2
  | .sub => 3
  | .mul => 4
  | .div => 5
  | .pushTrue => 6
  | .pushFalse => 7
  | .equal => 8
  | .notEqual => 9
  | .greaterThan => 10
  | .minus => 11
  | .bang => 12
  | .jumpNotTruthy => 13
  | .jump => 14
  | .pushNull => 15
  | .getGlobal => 16
  | .setGlobal => 17

/-- The operation that a byte denotes, if it denotes one. -/
def ofByte? (byte : UInt8) : Option Opcode :=
  all[byte.toNat]?

/-- An operation is found again under the byte that denotes it. -/
@[simp] theorem ofByte?_byte (opcode : Opcode) :
    ofByte? opcode.byte = some opcode := by
  cases opcode <;> rfl

/-- The name of an operation in listings and messages. -/
def name : Opcode → String
  | .constant => "OpConstant"
  | .add => "OpAdd"
  | .pop => "OpPop"
  | .sub => "OpSub"
  | .mul => "OpMul"
  | .div => "OpDiv"
  | .pushTrue => "OpTrue"
  | .pushFalse => "OpFalse"
  | .equal => "OpEqual"
  | .notEqual => "OpNotEqual"
  | .greaterThan => "OpGreaterThan"
  | .minus => "OpMinus"
  | .bang => "OpBang"
  | .jumpNotTruthy => "OpJumpNotTruthy"
  | .jump => "OpJump"
  | .pushNull => "OpNull"
  | .getGlobal => "OpGetGlobal"
  | .setGlobal => "OpSetGlobal"

/-- Constants, jumps and globals take one operand of two bytes; the rest none. -/
def operandWidths : Opcode → List Nat
  | .constant | .jumpNotTruthy | .jump | .getGlobal | .setGlobal =>
      [2]
  | _ =>
      []

/-- The layout of an operation's instructions. -/
def layout (opcode : Opcode) : Layout where
  name := opcode.name
  operandWidths := opcode.operandWidths

end Opcode

end StackLang
