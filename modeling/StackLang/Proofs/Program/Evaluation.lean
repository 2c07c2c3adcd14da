import StackLang.Machine.Basic
import StackLang.Proofs.Effects
import StackLang.Proofs.Program.Traversal

namespace StackLang

/-!
# Evaluation

What a program means, by recursion over its tree: there is no code, no pool and
no stack. A definition owns the slot that is its rank among all definitions, in
the order in which the traversal completes them. Of the stack only the room is
left: the number of values that still fit when a value is needed.
-/

/-- What evaluation reads and writes. -/
structure Store where
  /-- The global variables by slot. -/
  globals : Array Value
  /-- The value of the last expression statement, if there was one. -/
  lastPopped : Option Value
  deriving DecidableEq

/-- Why evaluation stops. -/
inductive Stop where
  | fault (fault : Fault)
  /-- There is an operator, a name or a kind of node without a meaning. -/
  | meaningless
  deriving DecidableEq

/-- Steps of evaluation. A stop keeps the store that it was met in. -/
abbrev EvalM :=
  EStateM Stop Store

/-- The slot of the latest definition of a name, if the names are defined in
the order of their slots. -/
def latestSlot? : (bound : List String) → (name : String) → Option Nat
  | [], _ =>
      none
  | first :: rest, name =>
      match latestSlot? rest name with
      | some slot =>
          some (slot + 1)
      | none =>
          if first = name then some 0 else none

namespace EvalM

/-- Take a place for a value. -/
def occupy (room : Nat) : EvalM PUnit :=
  if room = 0 then
    throw (.fault .stackOverflow)
  else
    pure ()

/-- Read a variable. -/
def readSlot (slot : Nat) : EvalM Value := do
  match (← get).globals[slot]? with
  | some value =>
      return value
  | none =>
      throw (.fault (.undefinedGlobal slot))

theorem readSlot_eq (slot : Nat) (store : Store) :
    readSlot slot store =
      match store.globals[slot]? with
      | some value =>
          .ok value store
      | none =>
          .error (.fault (.undefinedGlobal slot)) store := by
  rw [readSlot, bind_get]
  cases store.globals[slot]? <;> rfl

/-- Write a variable. -/
def writeSlot (slot : Nat) (value : Value) : EvalM PUnit :=
  modify fun store =>
    { store with globals := storeGlobal store.globals slot value }

/-- Keep the value of an expression statement. -/
def record (value : Value) : EvalM PUnit :=
  modify fun store => { store with lastPopped := some value }

/-- Both operands as integers. -/
def integers (opcode : Opcode) (left right : Value) : EvalM (Int × Int) :=
  match left, right with
  | .int left, .int right =>
      return (left.toInt, right.toInt)
  | _, _ =>
      throw (.fault
        (.unsupportedOperands opcode left.typeName right.typeName))

/-- An integer as a value, wrapped around to 64 bits. -/
def wrapped (number : Int) : Value :=
  .int (Int64.ofInt number)

/-- Whether an integer is greater than another. -/
def greater (left right : Value) : EvalM Value := do
  let (left, right) ← integers .greaterThan left right
  return .bool (right < left)

/-- Apply a prefix operator. -/
def applyUnary (operator : String) (operand : Value) : EvalM Value :=
  match operator, operand with
  | "!", operand =>
      return .bool !operand.isTruthy
  | "-", .int number =>
      return wrapped (-number.toInt)
  | "-", operand =>
      throw (.fault (.unsupportedNegation operand.typeName))
  | _, _ =>
      throw .meaningless

/-- Apply an infix operator other than `<`. -/
def applyBinary (operator : String) (left right : Value) : EvalM Value :=
  match operator with
  | "+" => do
      let (left, right) ← integers .add left right
      return wrapped (left + right)
  | "-" => do
      let (left, right) ← integers .sub left right
      return wrapped (left - right)
  | "*" => do
      let (left, right) ← integers .mul left right
      return wrapped (left * right)
  | "/" => do
      let (left, right) ← integers .div left right
      if right = 0 then
        throw (.fault .divisionByZero)
      else
        return wrapped (left.tdiv right)
  | ">" =>
      greater left right
  | "==" =>
      return .bool (left = right)
  | "!=" =>
      return .bool (left ≠ right)
  | _ =>
      throw .meaningless

end EvalM

open EvalM

mutual

/-- The value of an expression after the bound names were defined. -/
def Expr.evaluate (room : Nat) (bound : List String) : Expr → EvalM Value
  | .ident name =>
      match latestSlot? bound name with
      | some slot => do
          let value ← readSlot slot
          occupy room
          return value
      | none =>
          throw .meaningless
  | .int number => do
      occupy room
      return .int number
  | .bool truth => do
      occupy room
      return .bool truth
  | .unary operator operand => do
      let operand ← operand.evaluate room bound
      applyUnary operator operand
  | .binary left operator right =>
      if operator = "<" then do
        let rightValue ← right.evaluate room bound
        let leftValue ← left.evaluate (room - 1) (bound ++ right.lets)
        greater rightValue leftValue
      else do
        let leftValue ← left.evaluate room bound
        let rightValue ← right.evaluate (room - 1) (bound ++ left.lets)
        applyBinary operator leftValue rightValue
  | .ifThen condition consequence => do
      let truth ← condition.evaluate room bound
      if truth.isTruthy then
        evaluateArm room (bound ++ condition.lets) consequence
      else do
        occupy room
        return .null
  | .ifElse condition consequence alternative => do
      let truth ← condition.evaluate room bound
      if truth.isTruthy then
        evaluateArm room (bound ++ condition.lets) consequence
      else
        evaluateArm room
          (bound ++ condition.lets ++ letsOfStatements consequence)
          alternative
  | .str _ | .function _ _ | .call _ _ =>
      throw .meaningless

/-- Evaluate a statement for its effects. -/
def Stmt.evaluate (room : Nat) (bound : List String) : Stmt → EvalM PUnit
  | .define _ value => do
      let found ← value.evaluate room bound
      writeSlot (bound ++ value.lets).length found
  | .expr value => do
      let found ← value.evaluate room bound
      record found
  | .block statements =>
      evaluateStatements room bound statements
  | .ret _ =>
      throw .meaningless

/-- Evaluate statements for their effects. -/
def evaluateStatements (room : Nat) (bound : List String) :
    List Stmt → EvalM PUnit
  | [] =>
      pure ()
  | statement :: rest => do
      statement.evaluate room bound
      evaluateStatements room (bound ++ statement.lets) rest

/-- The value of a statement at the end of an arm: that of an expression
statement, which is not recorded, and null for a definition. -/
def Stmt.evaluateTail (room : Nat) (bound : List String) : Stmt → EvalM Value
  | .define _ value => do
      let found ← value.evaluate room bound
      writeSlot (bound ++ value.lets).length found
      occupy room
      return .null
  | .expr value =>
      value.evaluate room bound
  | .block statements =>
      evaluateArm room bound statements
  | .ret _ =>
      throw .meaningless

/-- The value of an arm, which is that of its last statement. Blocks without
any other statement do not count. -/
def evaluateArm (room : Nat) (bound : List String) :
    List Stmt → EvalM Value
  | [] => do
      occupy room
      return .null
  | statement :: rest =>
      if allEmpty rest then
        statement.evaluateTail room bound
      else do
        statement.evaluate room bound
        evaluateArm room (bound ++ statement.lets) rest

end

/-- Evaluate a program where nothing is defined and nothing has a value yet,
with room for so many values. -/
def Program.evaluate (capacity : Nat) (program : Program) :
    EStateM.Result Stop Store PUnit :=
  (evaluateStatements capacity [] program).run ⟨#[], none⟩

end StackLang
