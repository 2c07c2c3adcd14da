import StackLang.Compilation.Basic
import StackLang.Program.Basic

namespace StackLang

/-!
# Code generation

Code is generated in one walk over the program. An expression's code leaves its
value on top of the stack, and a statement's code leaves the stack as it was.

A choice is laid out with two forward jumps, whose targets become known only
after the code in between and are then filled in:

    condition
    OpJumpNotTruthy alternative
    consequence
    OpJump end
    alternative
    end

The value of a block inside a choice is that of its last expression statement.
-/

/-- The operand of a jump whose target is not known yet. -/
def pendingTarget : Nat :=
  9999

/-- The operation of a prefix operator. -/
def unaryOpcode? : String → Option Opcode
  | "!" =>
      some .bang
  | "-" =>
      some .minus
  | _ =>
      none

/-- The operation of an infix operator whose operands are pushed in the order
in which they are written. -/
def binaryOpcode? : String → Option Opcode
  | "+" =>
      some .add
  | "-" =>
      some .sub
  | "*" =>
      some .mul
  | "/" =>
      some .div
  | ">" =>
      some .greaterThan
  | "==" =>
      some .equal
  | "!=" =>
      some .notEqual
  | _ =>
      none

open CompileM

/-- Lay down the instruction of an operator, if there is one. -/
def emitOperator
    (operator : String) (opcode? : Option Opcode) : CompileM PUnit :=
  match opcode? with
  | some opcode =>
      emit opcode []
  | none =>
      throw (.unknownOperator operator)

/-- Lay down code that leaves one value, made of the code of statements. -/
def emitBlock (statements : CompileM PUnit) : CompileM PUnit := do
  statements
  keepValue

/-- Lay out a choice between two pieces of code that leave a value each. The
first jump is given its target before the alternative is laid down, the second
one after it. -/
def emitChoice
    (condition consequence alternative : CompileM PUnit) : CompileM PUnit := do
  condition
  let toAlternative ← here
  emit .jumpNotTruthy [pendingTarget]
  consequence
  let toEnd ← here
  emit .jump [pendingTarget]
  patch toAlternative (← here)
  alternative
  patch toEnd (← here)

mutual

/-- Generate the code of an expression. -/
def Expr.generate : Expr → CompileM PUnit
  | .ident name => do
      let slot ← resolve name
      emit .getGlobal [slot]
  | .int number => do
      let index ← addConstant (.int number)
      emit .constant [index]
  | .bool true =>
      emit .pushTrue []
  | .bool false =>
      emit .pushFalse []
  | .str _ =>
      throw (.unsupportedNode "string literal")
  | .unary operator operand => do
      operand.generate
      emitOperator operator (unaryOpcode? operator)
  | .binary left operator right =>
      if operator = "<" then do
        right.generate
        left.generate
        emit .greaterThan []
      else do
        left.generate
        right.generate
        emitOperator operator (binaryOpcode? operator)
  | .ifThen condition consequence =>
      emitChoice condition.generate
        (emitBlock (generateStatements consequence))
        (emit .pushNull [])
  | .ifElse condition consequence alternative =>
      emitChoice condition.generate
        (emitBlock (generateStatements consequence))
        (emitBlock (generateStatements alternative))
  | .function _ _ =>
      throw (.unsupportedNode "function literal")
  | .call _ _ =>
      throw (.unsupportedNode "call expression")

/-- Generate the code of a statement. -/
def Stmt.generate : Stmt → CompileM PUnit
  | .define name value => do
      value.generate
      let slot ← define name
      emit .setGlobal [slot]
  | .ret _ =>
      throw (.unsupportedNode "return statement")
  | .expr value => do
      value.generate
      emit .pop []
  | .block statements =>
      generateStatements statements

/-- Generate the code of statements one after the other. -/
def generateStatements : List Stmt → CompileM PUnit
  | [] =>
      pure ()
  | statement :: rest => do
      statement.generate
      generateStatements rest

end

/-- Add a program to a compilation. -/
def Program.generate (program : Program) : CompileM PUnit :=
  generateStatements program

/-- Compile a program on its own. -/
def compile (program : Program) : Except CompileError Bytecode :=
  match program.generate.run .start with
  | .ok _ compilation =>
      .ok compilation.bytecode
  | .error error _ =>
      .error error

end StackLang
