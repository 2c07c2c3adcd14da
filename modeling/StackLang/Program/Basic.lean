namespace StackLang

/-!
# Programs

A program is a sequence of statements over expressions. Operators are kept as
they were written, so that a tree can hold operators, and kinds of expressions,
that no instruction implements; compiling such a tree reports them.
-/

mutual

/-- An expression. -/
inductive Expr where
  | ident (name : String)
  | int (number : Int64)
  | bool (truth : Bool)
  | str (text : String)
  | unary (operator : String) (operand : Expr)
  | binary (left : Expr) (operator : String) (right : Expr)
  /-- A choice without an alternative; its value is null if the condition is falsy. -/
  | ifThen (condition : Expr) (consequence : List Stmt)
  /-- A choice between two blocks. -/
  | ifElse (condition : Expr) (consequence alternative : List Stmt)
  | function (parameters : List String) (body : List Stmt)
  | call (callee : Expr) (arguments : List Expr)

/-- A statement. -/
inductive Stmt where
  /-- Bind a name to the value of an expression. -/
  | define (name : String) (value : Expr)
  /-- Leave the surrounding function. -/
  | ret (value : Expr)
  /-- Evaluate an expression and discard its value. -/
  | expr (value : Expr)
  /-- Statements in braces. -/
  | block (statements : List Stmt)

end

/-- A whole compilation unit. -/
abbrev Program :=
  List Stmt

end StackLang
