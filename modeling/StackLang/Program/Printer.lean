import StackLang.Program.Basic
import StackLang.Text.Quoted

namespace StackLang

/-!
# Printed programs

The printer writes prefix and infix expressions in parentheses, so that the text
shows how they nest. Statements follow each other without a separator; only a
definition and a return end in a semicolon.

Every function here adds its text to the end of what was written before.
-/

/-- Add names separated by commas, as in a list of parameters. -/
def writeNames (text : String) (names : List String) : String :=
  text ++ ", ".intercalate names

mutual

/-- Add the text of an expression. -/
def Expr.write (text : String) : Expr → String
  | .ident name =>
      text ++ name
  | .int number =>
      text ++ toString number.toInt
  | .bool truth =>
      text ++ (if truth then "true" else "false")
  | .str content =>
      text ++ quote content
  | .unary operator operand =>
      operand.write (text ++ "(" ++ operator) ++ ")"
  | .binary left operator right =>
      right.write (left.write (text ++ "(") ++ " " ++ operator ++ " ") ++ ")"
  | .ifThen condition consequence =>
      writeStatements
        (condition.write (text ++ "if ") ++ " \x7b ") consequence ++ " \x7d"
  | .ifElse condition consequence alternative =>
      writeStatements
        (writeStatements
          (condition.write (text ++ "if ") ++ " \x7b ") consequence ++
            " \x7d else \x7b ")
        alternative ++ " \x7d"
  | .function parameters body =>
      writeStatements
        (writeNames (text ++ "fn(") parameters ++ ") \x7b ") body ++ " \x7d"
  | .call callee [] =>
      callee.write text ++ "()"
  | .call callee (argument :: arguments) =>
      writeArguments (argument.write (callee.write text ++ "(")) arguments ++ ")"

/-- Add the text of a statement. -/
def Stmt.write (text : String) : Stmt → String
  | .define name value =>
      value.write (text ++ "let " ++ name ++ " = ") ++ ";"
  | .ret value =>
      value.write (text ++ "return ") ++ ";"
  | .expr value =>
      value.write text
  | .block statements =>
      writeStatements (text ++ "\x7b ") statements ++ " \x7d"

/-- Add the texts of statements one after the other. -/
def writeStatements (text : String) : List Stmt → String
  | [] =>
      text
  | statement :: rest =>
      writeStatements (statement.write text) rest

/-- Add the texts of further arguments, each after a comma. -/
def writeArguments (text : String) : List Expr → String
  | [] =>
      text
  | argument :: rest =>
      writeArguments (argument.write (text ++ ", ")) rest

end

/-- The text of an expression. -/
def Expr.render (expression : Expr) : String :=
  expression.write ""

/-- The text of a statement. -/
def Stmt.render (statement : Stmt) : String :=
  statement.write ""

/-- The text of a program. -/
def Program.render (program : Program) : String :=
  writeStatements "" program

/-- The text of a program's statements as a block in braces. -/
def Program.renderBlock (program : Program) : String :=
  (Stmt.block program).render

end StackLang
