import StackLang.Program.Basic

namespace StackLang

/-!
# Equality of programs

Two trees are equal when they have the same shape and the same names, literals
and operators. A choice without an alternative differs from one whose
alternative is empty.
-/

mutual

/-- Whether two expressions are the same. -/
def Expr.same : Expr → Expr → Bool
  | .ident name, .ident name' =>
      name == name'
  | .int number, .int number' =>
      number == number'
  | .bool truth, .bool truth' =>
      truth == truth'
  | .str text, .str text' =>
      text == text'
  | .unary operator operand, .unary operator' operand' =>
      operator == operator' && operand.same operand'
  | .binary left operator right, .binary left' operator' right' =>
      operator == operator' && left.same left' && right.same right'
  | .ifThen condition consequence, .ifThen condition' consequence' =>
      condition.same condition' && sameStatements consequence consequence'
  | .ifElse condition consequence alternative,
    .ifElse condition' consequence' alternative' =>
      condition.same condition' && sameStatements consequence consequence' &&
        sameStatements alternative alternative'
  | .function parameters body, .function parameters' body' =>
      parameters == parameters' && sameStatements body body'
  | .call callee arguments, .call callee' arguments' =>
      callee.same callee' && sameArguments arguments arguments'
  | _, _ =>
      false

/-- Whether two statements are the same. -/
def Stmt.same : Stmt → Stmt → Bool
  | .define name value, .define name' value' =>
      name == name' && value.same value'
  | .ret value, .ret value' =>
      value.same value'
  | .expr value, .expr value' =>
      value.same value'
  | .block statements, .block statements' =>
      sameStatements statements statements'
  | _, _ =>
      false

/-- Whether two sequences of statements are the same. -/
def sameStatements : List Stmt → List Stmt → Bool
  | [], [] =>
      true
  | statement :: rest, statement' :: rest' =>
      statement.same statement' && sameStatements rest rest'
  | _, _ =>
      false

/-- Whether two sequences of arguments are the same. -/
def sameArguments : List Expr → List Expr → Bool
  | [], [] =>
      true
  | argument :: rest, argument' :: rest' =>
      argument.same argument' && sameArguments rest rest'
  | _, _ =>
      false

end

mutual

/-- Expressions are the same exactly when they are equal. -/
theorem Expr.same_iff :
    (left right : Expr) → (left.same right = true ↔ left = right)
  | .ident _, right | .int _, right | .bool _, right | .str _, right => by
      cases right <;> simp [Expr.same]
  | .unary _ operand, right => by
      cases right <;> simp [Expr.same, operand.same_iff]
  | .binary left _ right, other => by
      cases other <;>
        simp [Expr.same, left.same_iff, right.same_iff, and_assoc,
          and_left_comm]
  | .ifThen condition consequence, right => by
      cases right <;>
        simp [Expr.same, condition.same_iff, sameStatements_iff consequence]
  | .ifElse condition consequence alternative, right => by
      cases right <;>
        simp [Expr.same, condition.same_iff, sameStatements_iff consequence,
          sameStatements_iff alternative, and_assoc]
  | .function _ body, right => by
      cases right <;> simp [Expr.same, sameStatements_iff body]
  | .call callee arguments, right => by
      cases right <;>
        simp [Expr.same, callee.same_iff, sameArguments_iff arguments]
termination_by structural left => left

/-- Statements are the same exactly when they are equal. -/
theorem Stmt.same_iff :
    (left right : Stmt) → (left.same right = true ↔ left = right)
  | .define _ value, right | .ret value, right | .expr value, right => by
      cases right <;> simp [Stmt.same, value.same_iff]
  | .block statements, right => by
      cases right <;> simp [Stmt.same, sameStatements_iff statements]
termination_by structural left => left

/-- Sequences of statements are the same exactly when they are equal. -/
theorem sameStatements_iff :
    (left right : List Stmt) →
      (sameStatements left right = true ↔ left = right)
  | [], right => by
      cases right <;> simp [sameStatements]
  | statement :: rest, right => by
      cases right <;>
        simp [sameStatements, statement.same_iff, sameStatements_iff rest]
termination_by structural left => left

/-- Sequences of arguments are the same exactly when they are equal. -/
theorem sameArguments_iff :
    (left right : List Expr) →
      (sameArguments left right = true ↔ left = right)
  | [], right => by
      cases right <;> simp [sameArguments]
  | argument :: rest, right => by
      cases right <;>
        simp [sameArguments, argument.same_iff, sameArguments_iff rest]
termination_by structural left => left

end

/-- Equality of expressions is decided by comparing them. -/
instance : DecidableEq Expr :=
  fun left right => decidable_of_iff _ (Expr.same_iff left right)

/-- Equality of statements is decided by comparing them. -/
instance : DecidableEq Stmt :=
  fun left right => decidable_of_iff _ (Stmt.same_iff left right)

end StackLang
