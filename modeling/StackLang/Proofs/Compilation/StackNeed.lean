import StackLang.Proofs.Compilation.Visits

namespace StackLang

/-!
# The stack that a program needs

The cells that evaluation needs are read off the tree. While the second operand
of an operator is evaluated the value of the first one takes up a cell, and the
first operand of `<` is the right one. A plan has a peak: the greatest depth on
any way through it. The peak of an accepted program's plan is what the program
needs, above the depth at which the plan is begun.
-/

mutual

/-- The cells that an expression needs. -/
def Expr.stackNeed : Expr → Nat
  | .ident _ | .int _ | .bool _ | .str _ | .function _ _ | .call _ _ =>
      1
  | .unary _ operand =>
      operand.stackNeed
  | .binary left operator right =>
      if operator = "<" then
        max right.stackNeed (1 + left.stackNeed)
      else
        max left.stackNeed (1 + right.stackNeed)
  -- A choice has a value, also where no arm has an expression.
  | .ifThen condition consequence =>
      max condition.stackNeed (max (stackNeedOfStatements consequence) 1)
  | .ifElse condition consequence alternative =>
      max condition.stackNeed
        (max
          (max (stackNeedOfStatements consequence)
            (stackNeedOfStatements alternative))
          1)

/-- The cells that a statement needs. -/
def Stmt.stackNeed : Stmt → Nat
  | .define _ value | .ret value | .expr value =>
      value.stackNeed
  | .block statements =>
      stackNeedOfStatements statements

/-- The cells that statements need, one after the other. -/
def stackNeedOfStatements : List Stmt → Nat
  | [] =>
      0
  | statement :: rest =>
      max statement.stackNeed (stackNeedOfStatements rest)

end

mutual

/-- There is a choice somewhere in the expression. -/
def Expr.hasChoice : Expr → Bool
  | .ident _ | .int _ | .bool _ | .str _ =>
      false
  | .unary _ operand =>
      operand.hasChoice
  | .binary left _ right =>
      left.hasChoice || right.hasChoice
  | .ifThen _ _ | .ifElse _ _ _ =>
      true
  | .function _ body =>
      statementsHaveChoice body
  | .call callee arguments =>
      callee.hasChoice || argumentsHaveChoice arguments

/-- There is a choice somewhere in the statement. -/
def Stmt.hasChoice : Stmt → Bool
  | .define _ value | .ret value | .expr value =>
      value.hasChoice
  | .block statements =>
      statementsHaveChoice statements

/-- There is a choice somewhere in the statements. -/
def statementsHaveChoice : List Stmt → Bool
  | [] =>
      false
  | statement :: rest =>
      statement.hasChoice || statementsHaveChoice rest

/-- There is a choice somewhere in the arguments. -/
def argumentsHaveChoice : List Expr → Bool
  | [] =>
      false
  | argument :: rest =>
      argument.hasChoice || argumentsHaveChoice rest

end

/-- Every expression needs a cell for its value. -/
theorem Expr.stackNeed_pos :
    (expression : Expr) → 0 < expression.stackNeed
  | .ident _ | .int _ | .bool _ | .str _ => by
      exact Nat.one_pos
  | .unary _ operand => by
      exact operand.stackNeed_pos
  | .binary left operator right => by
      rw [Expr.stackNeed]
      split
      · exact Nat.lt_of_lt_of_le right.stackNeed_pos (Nat.le_max_left _ _)
      · exact Nat.lt_of_lt_of_le left.stackNeed_pos (Nat.le_max_left _ _)
  | .ifThen condition _ | .ifElse condition _ _ => by
      exact Nat.lt_of_lt_of_le condition.stackNeed_pos (Nat.le_max_left _ _)
  | .function _ _ | .call _ _ => by
      exact Nat.one_pos
termination_by structural expression => expression

mutual

/-- Statements without code need no cells. -/
theorem Stmt.stackNeed_of_isEmpty :
    (statement : Stmt) → statement.isEmpty = true → statement.stackNeed = 0
  | .define _ _, isEmpty | .ret _, isEmpty | .expr _, isEmpty => by
      cases isEmpty
  | .block statements, isEmpty => by
      exact stackNeed_of_allEmpty statements isEmpty
termination_by structural statement => statement

/-- Statements of which none has code need no cells. -/
theorem stackNeed_of_allEmpty :
    (statements : List Stmt) → allEmpty statements = true →
      stackNeedOfStatements statements = 0
  | [], _ => by
      rfl
  | statement :: rest, isEmpty => by
      rw [allEmpty, Bool.and_eq_true] at isEmpty
      rw [stackNeedOfStatements, statement.stackNeed_of_isEmpty isEmpty.1,
        stackNeed_of_allEmpty rest isEmpty.2, Nat.max_self]
termination_by structural statements => statements

end

namespace Plan

/-- The greatest depth of the stack on any way through a plan that is begun at
a depth. -/
def peak (depth : Nat) : Plan → Nat
  | .empty =>
      depth
  | .single instr =>
      max depth (depth - instr.opcode.pops + instr.opcode.pushes)
  | .seq first second =>
      max (first.peak depth) (second.peak (first.depthAfter depth))
  | .choice consequence alternative =>
      max depth
        (max (consequence.peak (depth - 1)) (alternative.peak (depth - 1)))

/-- There is one way through the plan. -/
def Linear : Plan → Prop
  | .empty | .single _ =>
      True
  | .seq first second =>
      first.Linear ∧ second.Linear
  | .choice _ _ =>
      False

/-- A prefix operator stays at the depth of its operand. -/
theorem peak_unary (operator : String) (depth : Nat) :
    (ofOperator (unaryOpcode? operator)).peak (depth + 1) = depth + 1 := by
  unfold unaryOpcode?
  split <;> simp [ofOperator, peak, Opcode.pops, Opcode.pushes]

/-- An infix operator stays below the depth of its operands. -/
theorem peak_binary (operator : String) (depth : Nat) :
    (ofOperator (binaryOpcode? operator)).peak (depth + 2) = depth + 2 := by
  unfold binaryOpcode?
  split <;> simp [ofOperator, peak, Opcode.pops, Opcode.pushes]

theorem linear_ofOperator (opcode? : Option Opcode) :
    (ofOperator opcode?).Linear := by
  cases opcode? <;> exact trivial

end Plan

section Accepted

variable {depth offset : Nat} {numbering : Numbering}

/-- Behind an accepted expression stands its value. -/
theorem Expr.depthAfter_plan
    {expression : Expr}
    (accepted : expression.firstError? offset numbering = none) :
    (expression.plan numbering).depthAfter depth = depth + 1 :=
  (expression.plan_balanced accepted (Nat.le_refl _)).depthAfter_eq

/-- An accepted statement leaves nothing. -/
theorem Stmt.depthAfter_plan
    {statement : Stmt}
    (accepted : statement.firstError? offset numbering = none) :
    (statement.plan numbering).depthAfter depth = depth :=
  (statement.plan_balanced accepted (Nat.le_refl _)).depthAfter_eq

end Accepted

mutual

/-- The plan of an accepted expression rises by what the expression needs. -/
theorem Expr.peak_plan {offset : Nat} {numbering : Numbering} (depth : Nat) :
    (expression : Expr) →
      expression.firstError? offset numbering = none →
      (expression.plan numbering).peak depth = depth + expression.stackNeed
  | .ident _, _ | .int _, _ | .bool true, _ | .bool false, _ => by
      exact Nat.max_eq_right (Nat.le_succ depth)
  | .str _, accepted | .function _ _, accepted | .call _ _, accepted => by
      cases accepted
  | .unary operator operand, accepted => by
      rw [Expr.firstError?, Option.or_eq_none_iff] at accepted
      have positive := operand.stackNeed_pos
      simp only [Expr.plan, Plan.peak, operand.peak_plan depth accepted.1,
        Expr.depthAfter_plan accepted.1, Plan.peak_unary, Expr.stackNeed]
      omega
  | .binary left operator right, accepted => by
      have leftPositive := left.stackNeed_pos
      have rightPositive := right.stackNeed_pos
      by_cases isLess : operator = "<"
      · simp only [Expr.firstError?, if_pos isLess,
          Option.or_eq_none_iff] at accepted
        simp only [Expr.plan, if_pos isLess, Plan.peak,
          right.peak_plan depth accepted.1, Expr.depthAfter_plan accepted.1,
          left.peak_plan (depth + 1) accepted.2,
          Expr.depthAfter_plan accepted.2, Opcode.pops, Opcode.pushes,
          Expr.stackNeed]
        omega
      · simp only [Expr.firstError?, if_neg isLess,
          Option.or_eq_none_iff] at accepted
        simp only [Expr.plan, if_neg isLess, Plan.peak,
          left.peak_plan depth accepted.1, Expr.depthAfter_plan accepted.1,
          right.peak_plan (depth + 1) accepted.2.1,
          Expr.depthAfter_plan accepted.2.1, Plan.peak_binary,
          Expr.stackNeed]
        omega
  | .ifThen condition consequence, accepted => by
      simp only [Expr.firstError?, Option.or_eq_none_iff] at accepted
      have positive := condition.stackNeed_pos
      simp only [Expr.plan, Plan.peak, condition.peak_plan depth accepted.1,
        Expr.depthAfter_plan accepted.1, Nat.add_sub_cancel,
        peak_planArm depth consequence accepted.2.1, Opcode.pops,
        Opcode.pushes, Expr.stackNeed]
      omega
  | .ifElse condition consequence alternative, accepted => by
      simp only [Expr.firstError?, Option.or_eq_none_iff] at accepted
      have positive := condition.stackNeed_pos
      simp only [Expr.plan, Plan.peak, condition.peak_plan depth accepted.1,
        Expr.depthAfter_plan accepted.1, Nat.add_sub_cancel,
        peak_planArm depth consequence accepted.2.1,
        peak_planArm depth alternative accepted.2.2.2.1, Expr.stackNeed]
      omega
termination_by structural expression => expression

/-- The plan of an accepted statement rises by what the statement needs. -/
theorem Stmt.peak_plan {offset : Nat} {numbering : Numbering} (depth : Nat) :
    (statement : Stmt) →
      statement.firstError? offset numbering = none →
      (statement.plan numbering).peak depth = depth + statement.stackNeed
  | .define _ value, accepted => by
      rw [Stmt.firstError?, Option.or_eq_none_iff] at accepted
      have positive := value.stackNeed_pos
      simp only [Stmt.plan, Plan.peak, value.peak_plan depth accepted.1,
        Expr.depthAfter_plan accepted.1, Opcode.pops, Opcode.pushes,
        Stmt.stackNeed]
      omega
  | .ret _, accepted => by
      cases accepted
  | .expr value, accepted => by
      have positive := value.stackNeed_pos
      have valueAccepted : value.firstError? offset numbering = none := accepted
      simp only [Stmt.plan, Plan.peak, value.peak_plan depth valueAccepted,
        Expr.depthAfter_plan valueAccepted, Opcode.pops, Opcode.pushes,
        Stmt.stackNeed]
      omega
  | .block statements, accepted => by
      exact peak_planStatements depth statements accepted
termination_by structural statement => statement

/-- The plan of accepted statements rises by what the statements need. -/
theorem peak_planStatements
    {offset : Nat} {numbering : Numbering} (depth : Nat) :
    (statements : List Stmt) →
      firstErrorOfStatements? offset numbering statements = none →
      (planStatements numbering statements).peak depth =
        depth + stackNeedOfStatements statements
  | [], _ => by
      rfl
  | statement :: rest, accepted => by
      simp only [firstErrorOfStatements?, Option.or_eq_none_iff] at accepted
      rw [planStatements, Plan.peak, statement.peak_plan depth accepted.1,
        Stmt.depthAfter_plan accepted.1,
        peak_planStatements depth rest accepted.2, stackNeedOfStatements,
        Nat.add_max_add_left]
termination_by structural statements => statements

/-- The plan of an accepted statement that ends an arm rises by what the
statement needs, and by its value at least. -/
theorem Stmt.peak_planTail
    {offset : Nat} {numbering : Numbering} (depth : Nat) :
    (statement : Stmt) →
      statement.firstError? offset numbering = none →
      (statement.planTail numbering).peak depth =
        depth + max statement.stackNeed 1
  | .define _ value, accepted => by
      rw [Stmt.firstError?, Option.or_eq_none_iff] at accepted
      simp only [Stmt.planTail, Plan.peak, Plan.depthAfter,
        value.peak_plan depth accepted.1, Expr.depthAfter_plan accepted.1,
        Opcode.pops, Opcode.pushes, Stmt.stackNeed]
      omega
  | .ret _, accepted => by
      cases accepted
  | .expr value, accepted => by
      rw [Stmt.stackNeed, Nat.max_eq_left value.stackNeed_pos]
      exact value.peak_plan depth accepted
  | .block statements, accepted => by
      exact peak_planArm depth statements accepted
termination_by structural statement => statement

/-- The plan of an accepted arm rises by what the arm's statements need, and by
the arm's value at least. -/
theorem peak_planArm
    {offset : Nat} {numbering : Numbering} (depth : Nat) :
    (statements : List Stmt) →
      firstErrorOfStatements? offset numbering statements = none →
      (planArm numbering statements).peak depth =
        depth + max (stackNeedOfStatements statements) 1
  | [], _ => by
      exact Nat.max_eq_right (Nat.le_succ depth)
  | statement :: rest, accepted => by
      simp only [firstErrorOfStatements?, Option.or_eq_none_iff] at accepted
      rw [planArm, stackNeedOfStatements]
      split
      case isTrue isLast =>
        rw [stackNeed_of_allEmpty rest isLast, Nat.max_zero]
        exact statement.peak_planTail depth accepted.1
      case isFalse =>
        rw [Plan.peak, statement.peak_plan depth accepted.1,
          Stmt.depthAfter_plan accepted.1,
          peak_planArm depth rest accepted.2, Nat.add_max_add_left,
          Nat.max_assoc]
termination_by structural statements => statements

end

mutual

/-- There is one way through an expression without choices. -/
theorem Expr.plan_linear {numbering : Numbering} :
    (expression : Expr) → expression.hasChoice = false →
      (expression.plan numbering).Linear
  | .ident _, _ | .int _, _ | .bool true, _ | .bool false, _ | .str _, _
  | .function _ _, _ | .call _ _, _ => by
      exact trivial
  | .unary _ operand, noChoice => by
      exact ⟨operand.plan_linear noChoice, Plan.linear_ofOperator _⟩
  | .binary left operator right, noChoice => by
      rw [Expr.hasChoice, Bool.or_eq_false_iff] at noChoice
      rw [Expr.plan]
      split
      · exact ⟨right.plan_linear noChoice.2, left.plan_linear noChoice.1,
          trivial⟩
      · exact ⟨left.plan_linear noChoice.1, right.plan_linear noChoice.2,
          Plan.linear_ofOperator _⟩
  | .ifThen _ _, noChoice | .ifElse _ _ _, noChoice => by
      cases noChoice
termination_by structural expression => expression

/-- There is one way through a statement without choices. -/
theorem Stmt.plan_linear {numbering : Numbering} :
    (statement : Stmt) → statement.hasChoice = false →
      (statement.plan numbering).Linear
  | .define _ value, noChoice | .expr value, noChoice => by
      exact ⟨value.plan_linear noChoice, trivial⟩
  | .ret _, _ => by
      exact trivial
  | .block statements, noChoice => by
      exact planStatements_linear statements noChoice
termination_by structural statement => statement

/-- There is one way through statements without choices. -/
theorem planStatements_linear {numbering : Numbering} :
    (statements : List Stmt) → statementsHaveChoice statements = false →
      (planStatements numbering statements).Linear
  | [], _ => by
      exact trivial
  | statement :: rest, noChoice => by
      rw [statementsHaveChoice, Bool.or_eq_false_iff] at noChoice
      exact ⟨statement.plan_linear noChoice.1,
        planStatements_linear rest noChoice.2⟩
termination_by structural statements => statements

end

/-- The plan of a compiled program rises by what the program needs. -/
theorem Compiled.peak_eq
    {scope : Scope} {constants : Array Value} {program : Program}
    {after : Compilation}
    (compiled : Compiled scope constants program after) (depth : Nat) :
    (planStatements ⟨constants.size, scope⟩ program).peak depth =
      depth + stackNeedOfStatements program :=
  peak_planStatements depth program compiled.accepted

end StackLang
