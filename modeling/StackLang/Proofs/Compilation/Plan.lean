import StackLang.Compilation.Generation
import StackLang.Proofs.Code.Sequence
import StackLang.Proofs.Effects
import StackLang.Proofs.Program.Traversal

namespace StackLang

/-!
# Plans

A plan is the code of a program before it has a place: instructions in
sequence, and choices whose jumps have no targets yet. Laying a plan out at an
offset fills in the targets, so that nothing but the layout of a choice depends
on where code stands.

The plan of an expression, a statement or an arm of a choice is read off the
tree. It depends on the numbers of the constants and slots used before.
-/

/-- Code without a place. -/
inductive Plan where
  | empty
  /-- One instruction, which is not a jump. -/
  | single (instr : Instr)
  | seq (first second : Plan)
  /-- Pop a condition and go on with one of two plans. -/
  | choice (consequence alternative : Plan)

/-- The number of bytes of a jump. -/
def jumpSize : Nat :=
  3

@[simp] theorem size_jumpNotTruthy (target : Nat) :
    (Instr.mk .jumpNotTruthy [target]).size = jumpSize :=
  rfl

@[simp] theorem size_jump (target : Nat) :
    (Instr.mk .jump [target]).size = jumpSize :=
  rfl

namespace Plan

/-- The number of bytes of a plan, wherever it is laid out. -/
def size : Plan → Nat
  | .empty =>
      0
  | .single instr =>
      instr.size
  | .seq first second =>
      first.size + second.size
  | .choice consequence alternative =>
      jumpSize + consequence.size + jumpSize + alternative.size

/-- The instructions of a plan at an offset. -/
def layout (offset : Nat) : Plan → List Instr
  | .empty =>
      []
  | .single instr =>
      [instr]
  | .seq first second =>
      first.layout offset ++ second.layout (offset + first.size)
  | .choice consequence alternative =>
      let start := offset + jumpSize + consequence.size + jumpSize
      ⟨.jumpNotTruthy, [start]⟩ :: consequence.layout (offset + jumpSize) ++
        ⟨.jump, [start + alternative.size]⟩ :: alternative.layout start

/-- A plan takes up its size. -/
@[simp] theorem codeSize_layout (plan : Plan) (offset : Nat) :
    codeSize (plan.layout offset) = plan.size := by
  induction plan generalizing offset with
  | empty =>
      rfl
  | single instr =>
      simp [layout, size]
  | seq first second firstHypothesis secondHypothesis =>
      simp [layout, size, firstHypothesis, secondHypothesis]
  | choice consequence alternative consequenceHypothesis
      alternativeHypothesis =>
      simp only [layout, size, codeSize_cons, codeSize_append,
        List.cons_append, size_jumpNotTruthy, size_jump,
        consequenceHypothesis, alternativeHypothesis]
      omega

/-- The operation that a plan ends in, if it has an instruction at all. -/
def lastOpcode? : Plan → Option Opcode
  | .empty =>
      none
  | .single instr =>
      some instr.opcode
  | .seq first second =>
      second.lastOpcode?.or first.lastOpcode?
  | .choice _ alternative =>
      alternative.lastOpcode?.or (some .jump)

/-- The instruction of an operator, if there is one. -/
def ofOperator : Option Opcode → Plan
  | some opcode =>
      .single ⟨opcode, []⟩
  | none =>
      .empty

end Plan

/-- What the numbers in code depend on: the number of constants in the pool,
and the scope. -/
structure Numbering where
  pool : Nat
  scope : Scope

/-- The numbering after literals were pooled and names were defined. -/
def Numbering.advance
    (numbering : Numbering) (literals : List Int64) (lets : List String) :
    Numbering where
  pool := numbering.pool + literals.length
  scope := numbering.scope.defineAll lets

/-- The numbering after an expression. -/
def Expr.advance (numbering : Numbering) (expression : Expr) : Numbering :=
  numbering.advance expression.literals expression.lets

/-- The numbering after a statement. -/
def Stmt.advance (numbering : Numbering) (statement : Stmt) : Numbering :=
  numbering.advance statement.literals statement.lets

/-- The numbering after statements. -/
def advanceStatements
    (numbering : Numbering) (statements : List Stmt) : Numbering :=
  numbering.advance (literalsOfStatements statements)
    (letsOfStatements statements)

namespace Numbering

@[simp] theorem advance_nil (numbering : Numbering) :
    numbering.advance [] [] = numbering :=
  rfl

/-- Numbers advance over two parts one after the other. -/
theorem advance_append
    (numbering : Numbering)
    (firstLiterals secondLiterals : List Int64)
    (firstLets secondLets : List String) :
    numbering.advance (firstLiterals ++ secondLiterals)
        (firstLets ++ secondLets) =
      (numbering.advance firstLiterals firstLets).advance
        secondLiterals secondLets := by
  simp [advance, Scope.defineAll, Nat.add_assoc]

end Numbering

/-- Numbers advance over statements one after the other. -/
theorem advanceStatements_cons
    (numbering : Numbering) (statement : Stmt) (rest : List Stmt) :
    advanceStatements numbering (statement :: rest) =
      advanceStatements (statement.advance numbering) rest := by
  rw [advanceStatements, literalsOfStatements, letsOfStatements,
    Numbering.advance_append]
  rfl

mutual

/-- The plan of an expression. -/
def Expr.plan (numbering : Numbering) : Expr → Plan
  | .ident name =>
      .single ⟨.getGlobal, [(numbering.scope.resolve? name).getD 0]⟩
  | .int _ =>
      .single ⟨.constant, [numbering.pool]⟩
  | .bool true =>
      .single ⟨.pushTrue, []⟩
  | .bool false =>
      .single ⟨.pushFalse, []⟩
  | .unary operator operand =>
      .seq (operand.plan numbering) (.ofOperator (unaryOpcode? operator))
  | .binary left operator right =>
      if operator = "<" then
        .seq (right.plan numbering)
          (.seq (left.plan (right.advance numbering))
            (.single ⟨.greaterThan, []⟩))
      else
        .seq (left.plan numbering)
          (.seq (right.plan (left.advance numbering))
            (.ofOperator (binaryOpcode? operator)))
  | .ifThen condition consequence =>
      .seq (condition.plan numbering)
        (.choice (planArm (condition.advance numbering) consequence)
          (.single ⟨.pushNull, []⟩))
  | .ifElse condition consequence alternative =>
      .seq (condition.plan numbering)
        (.choice (planArm (condition.advance numbering) consequence)
          (planArm
            (advanceStatements (condition.advance numbering) consequence)
            alternative))
  | .str _ | .function _ _ | .call _ _ =>
      .empty

/-- The plan of a statement that leaves nothing. -/
def Stmt.plan (numbering : Numbering) : Stmt → Plan
  | .define _ value =>
      .seq (value.plan numbering)
        (.single ⟨.setGlobal, [(value.advance numbering).scope.count]⟩)
  | .ret _ =>
      .empty
  | .expr value =>
      .seq (value.plan numbering) (.single ⟨.pop, []⟩)
  | .block statements =>
      planStatements numbering statements

/-- The plan of statements that leave nothing. -/
def planStatements (numbering : Numbering) : List Stmt → Plan
  | [] =>
      .empty
  | statement :: rest =>
      .seq (statement.plan numbering)
        (planStatements (statement.advance numbering) rest)

/-- The plan of a statement that ends an arm and leaves the arm's value. -/
def Stmt.planTail (numbering : Numbering) : Stmt → Plan
  | .define _ value =>
      .seq
        (.seq (value.plan numbering)
          (.single ⟨.setGlobal, [(value.advance numbering).scope.count]⟩))
        (.single ⟨.pushNull, []⟩)
  | .ret _ =>
      .empty
  | .expr value =>
      value.plan numbering
  | .block statements =>
      planArm numbering statements

/-- The plan of an arm, which leaves one value. -/
def planArm (numbering : Numbering) : List Stmt → Plan
  | [] =>
      .single ⟨.pushNull, []⟩
  | statement :: rest =>
      if allEmpty rest then
        statement.planTail numbering
      else
        .seq (statement.plan numbering)
          (planArm (statement.advance numbering) rest)

end

end StackLang
