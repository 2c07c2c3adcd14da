import StackLang.Program.Basic

namespace StackLang

/-!
# What a traversal of a program comes across

Code generation walks over a program in a fixed order: operands before their
operator, the right operand of `<` before the left one, the value of a
definition before its name, both arms of a choice. The lists here hold what is
met on the way, in that order.
-/

mutual

/-- The names that an expression defines, in the order of completion. -/
def Expr.lets : Expr → List String
  | .ident _ | .int _ | .bool _ | .str _ | .function _ _ | .call _ _ =>
      []
  | .unary _ operand =>
      operand.lets
  | .binary left operator right =>
      if operator = "<" then
        right.lets ++ left.lets
      else
        left.lets ++ right.lets
  | .ifThen condition consequence =>
      condition.lets ++ letsOfStatements consequence
  | .ifElse condition consequence alternative =>
      condition.lets ++
        (letsOfStatements consequence ++ letsOfStatements alternative)

/-- The names that a statement defines, in the order of completion. -/
def Stmt.lets : Stmt → List String
  | .define name value =>
      value.lets ++ [name]
  | .ret _ =>
      []
  | .expr value =>
      value.lets
  | .block statements =>
      letsOfStatements statements

/-- The names that statements define, in the order of completion. -/
def letsOfStatements : List Stmt → List String
  | [] =>
      []
  | statement :: rest =>
      statement.lets ++ letsOfStatements rest

end

mutual

/-- The integer literals of an expression, in the order of traversal. -/
def Expr.literals : Expr → List Int64
  | .ident _ | .bool _ | .str _ | .function _ _ | .call _ _ =>
      []
  | .int number =>
      [number]
  | .unary _ operand =>
      operand.literals
  | .binary left operator right =>
      if operator = "<" then
        right.literals ++ left.literals
      else
        left.literals ++ right.literals
  | .ifThen condition consequence =>
      condition.literals ++ literalsOfStatements consequence
  | .ifElse condition consequence alternative =>
      condition.literals ++
        (literalsOfStatements consequence ++ literalsOfStatements alternative)

/-- The integer literals of a statement, in the order of traversal. -/
def Stmt.literals : Stmt → List Int64
  | .define _ value =>
      value.literals
  | .ret _ =>
      []
  | .expr value =>
      value.literals
  | .block statements =>
      literalsOfStatements statements

/-- The integer literals of statements, in the order of traversal. -/
def literalsOfStatements : List Stmt → List Int64
  | [] =>
      []
  | statement :: rest =>
      statement.literals ++ literalsOfStatements rest

end

mutual

/-- A statement without code: a block that holds no other statements. -/
def Stmt.isEmpty : Stmt → Bool
  | .define _ _ | .ret _ | .expr _ =>
      false
  | .block statements =>
      allEmpty statements

/-- None of the statements has code. -/
def allEmpty : List Stmt → Bool
  | [] =>
      true
  | statement :: rest =>
      statement.isEmpty && allEmpty rest

end

/-- Statements in two parts define what the parts define. -/
@[simp] theorem letsOfStatements_append (first second : List Stmt) :
    letsOfStatements (first ++ second) =
      letsOfStatements first ++ letsOfStatements second := by
  induction first with
  | nil =>
      rfl
  | cons statement rest inductionHypothesis =>
      simp [letsOfStatements, inductionHypothesis]

/-- Statements in two parts hold the literals of the parts. -/
@[simp] theorem literalsOfStatements_append (first second : List Stmt) :
    literalsOfStatements (first ++ second) =
      literalsOfStatements first ++ literalsOfStatements second := by
  induction first with
  | nil =>
      rfl
  | cons statement rest inductionHypothesis =>
      simp [literalsOfStatements, inductionHypothesis]

mutual

/-- A statement without code defines nothing and holds no literals. -/
theorem Stmt.nothing_of_isEmpty :
    (statement : Stmt) → statement.isEmpty = true →
      statement.lets = [] ∧ statement.literals = []
  | .block statements, isEmpty => by
      exact nothing_of_allEmpty statements isEmpty
termination_by structural statement => statement

/-- Statements without code define nothing and hold no literals. -/
theorem nothing_of_allEmpty :
    (statements : List Stmt) → allEmpty statements = true →
      letsOfStatements statements = [] ∧
        literalsOfStatements statements = []
  | [], _ => by
      exact ⟨rfl, rfl⟩
  | statement :: rest, empty => by
      rw [allEmpty, Bool.and_eq_true] at empty
      have first := statement.nothing_of_isEmpty empty.1
      have others := nothing_of_allEmpty rest empty.2
      simp [letsOfStatements, literalsOfStatements, first, others]
termination_by structural statements => statements

end

end StackLang
