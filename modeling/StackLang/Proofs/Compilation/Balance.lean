import StackLang.Proofs.Compilation.Accepted
import StackLang.Proofs.Machine.Depth

namespace StackLang

/-!
# Balanced plans

A plan is balanced if every instruction finds the values that it takes and the
constant that it names, and both arms of a choice lead to the same depth. The
plan of an accepted expression adds one value to the stack, that of an accepted
statement none, and every arm of a choice adds exactly one.
-/

/-- A plan takes the stack from one depth to another on every path. -/
inductive Plan.Balanced (pool : Nat) : (before after : Nat) → Plan → Prop
  | empty {depth : Nat} :
      Balanced pool depth depth .empty
  | single {instr : Instr} {before after : Nat} (depth : Nat)
      (straight : instr.opcode.isJump = false)
      (pooled : instr.opcode = .constant → instr.operand < pool)
      (takes : before = depth + instr.opcode.pops)
      (leaves : after = depth + instr.opcode.pushes) :
      Balanced pool before after (.single instr)
  | seq {first second : Plan} {before middle after : Nat}
      (firstBalanced : Balanced pool before middle first)
      (secondBalanced : Balanced pool middle after second) :
      Balanced pool before after (.seq first second)
  | choice {consequence alternative : Plan} {depth after : Nat}
      (consequenceBalanced : Balanced pool depth after consequence)
      (alternativeBalanced : Balanced pool depth after alternative) :
      Balanced pool (depth + 1) after (.choice consequence alternative)

namespace Plan.Balanced

variable {pool before after : Nat} {plan : Plan}

/-- The instructions of a balanced plan are no jumps. -/
theorem straight (balanced : plan.Balanced pool before after) :
    plan.Straight := by
  induction balanced with
  | empty =>
      exact trivial
  | single _ straight =>
      exact straight
  | seq _ _ firstHypothesis secondHypothesis =>
      exact ⟨firstHypothesis, secondHypothesis⟩
  | choice _ _ consequenceHypothesis alternativeHypothesis =>
      exact ⟨consequenceHypothesis, alternativeHypothesis⟩

/-- Executing a balanced plan moves the stack by what the plan does. -/
theorem execute_moves
    {constants : Array Value} (poolSize : constants.size = pool)
    (balanced : plan.Balanced pool before after) (offset : Nat) :
    MovesStack (fun error => error.fault.Expected) before after
      (plan.execute constants offset) := by
  subst poolSize
  induction balanced generalizing offset with
  | empty =>
      exact .pure _
  | single depth straight pooled takes leaves =>
      subst takes leaves
      exact ((Instr.execute_moves pooled depth 0).bind fun _ => .pure _).locate
        offset
  | seq _ _ firstHypothesis secondHypothesis =>
      exact (firstHypothesis offset).bind fun _ => secondHypothesis _
  | choice _ _ consequenceHypothesis alternativeHypothesis =>
      refine (MachineM.pop_moves.locate offset).bind fun condition => ?_
      split
      · exact consequenceHypothesis _
      · exact alternativeHypothesis _

end Plan.Balanced

section Operators

variable {pool depth : Nat} {operator : String}

/-- A prefix operator replaces one value. -/
theorem Plan.Balanced.unary
    (accepted : operatorError? operator (unaryOpcode? operator) = none) :
    (Plan.ofOperator (unaryOpcode? operator)).Balanced pool (depth + 1)
      (depth + 1) := by
  obtain ⟨opcode, found⟩ := exists_opcode_of_accepted accepted
  rw [found]
  rcases unaryOpcode?_cases found with ⟨_, rfl⟩ | ⟨_, rfl⟩ <;>
    exact .single depth rfl nofun rfl rfl

/-- An infix operator replaces two values by one. -/
theorem Plan.Balanced.binary
    (accepted : operatorError? operator (binaryOpcode? operator) = none) :
    (Plan.ofOperator (binaryOpcode? operator)).Balanced pool (depth + 2)
      (depth + 1) := by
  obtain ⟨opcode, found⟩ := exists_opcode_of_accepted accepted
  rw [found]
  rcases binaryOpcode?_cases found with
    ⟨_, rfl⟩ | ⟨_, rfl⟩ | ⟨_, rfl⟩ | ⟨_, rfl⟩ | ⟨_, rfl⟩ | ⟨_, rfl⟩ |
      ⟨_, rfl⟩ <;>
    exact .single depth rfl nofun rfl rfl

end Operators

mutual

/-- The plan of an accepted expression adds its value. -/
theorem Expr.plan_balanced
    {pool depth offset : Nat} {numbering : Numbering} :
    (expression : Expr) →
      expression.firstError? offset numbering = none →
      numbering.pool + expression.literals.length ≤ pool →
      (expression.plan numbering).Balanced pool depth (depth + 1)
  | .ident _, _, _ => by
      exact .single depth rfl nofun rfl rfl
  | .int _, _, enough => by
      exact .single depth rfl (fun _ => enough) rfl rfl
  | .bool true, _, _ | .bool false, _, _ => by
      exact .single depth rfl nofun rfl rfl
  | .str _, accepted, _ | .function _ _, accepted, _
  | .call _ _, accepted, _ => by
      cases accepted
  | .unary operator operand, accepted, enough => by
      rw [Expr.firstError?, Option.or_eq_none_iff] at accepted
      exact .seq (operand.plan_balanced accepted.1 enough)
        (.unary accepted.2)
  | .binary left operator right, accepted, enough => by
      by_cases isLess : operator = "<"
      · simp only [Expr.firstError?, Expr.literals, if_pos isLess,
          Option.or_eq_none_iff, List.length_append] at accepted enough
        simp only [Expr.plan, if_pos isLess]
        refine .seq (right.plan_balanced accepted.1 (by omega))
          (.seq (left.plan_balanced accepted.2 ?_)
            (.single depth rfl nofun rfl rfl))
        simp only [Expr.advance, Numbering.advance]
        omega
      · simp only [Expr.firstError?, Expr.literals, if_neg isLess,
          Option.or_eq_none_iff, List.length_append] at accepted enough
        simp only [Expr.plan, if_neg isLess]
        refine .seq (left.plan_balanced accepted.1 (by omega))
          (.seq (right.plan_balanced accepted.2.1 ?_)
            (.binary accepted.2.2))
        simp only [Expr.advance, Numbering.advance]
        omega
  | .ifThen condition consequence, accepted, enough => by
      simp only [Expr.firstError?, Expr.literals, Option.or_eq_none_iff,
        List.length_append] at accepted enough
      refine .seq (condition.plan_balanced accepted.1 (by omega))
        (.choice (planArm_balanced consequence accepted.2.1 ?_)
          (.single depth rfl nofun rfl rfl))
      simp only [Expr.advance, Numbering.advance]
      omega
  | .ifElse condition consequence alternative, accepted, enough => by
      simp only [Expr.firstError?, Expr.literals, Option.or_eq_none_iff,
        List.length_append] at accepted enough
      refine .seq (condition.plan_balanced accepted.1 (by omega))
        (.choice (planArm_balanced consequence accepted.2.1 ?_)
          (planArm_balanced alternative accepted.2.2.2.1 ?_))
      · simp only [Expr.advance, Numbering.advance]
        omega
      · simp only [Expr.advance, advanceStatements, Numbering.advance]
        omega
termination_by structural expression => expression

/-- The plan of an accepted statement leaves the stack as it was. -/
theorem Stmt.plan_balanced
    {pool depth offset : Nat} {numbering : Numbering} :
    (statement : Stmt) →
      statement.firstError? offset numbering = none →
      numbering.pool + statement.literals.length ≤ pool →
      (statement.plan numbering).Balanced pool depth depth
  | .define _ value, accepted, enough => by
      rw [Stmt.firstError?, Option.or_eq_none_iff] at accepted
      exact .seq (value.plan_balanced accepted.1 enough)
        (.single depth rfl nofun rfl rfl)
  | .ret _, accepted, _ => by
      cases accepted
  | .expr value, accepted, enough => by
      exact .seq (value.plan_balanced accepted enough)
        (.single depth rfl nofun rfl rfl)
  | .block statements, accepted, enough => by
      exact planStatements_balanced statements accepted enough
termination_by structural statement => statement

/-- The plan of accepted statements leaves the stack as it was. -/
theorem planStatements_balanced
    {pool depth offset : Nat} {numbering : Numbering} :
    (statements : List Stmt) →
      firstErrorOfStatements? offset numbering statements = none →
      numbering.pool + (literalsOfStatements statements).length ≤ pool →
      (planStatements numbering statements).Balanced pool depth depth
  | [], _, _ => by
      exact .empty
  | statement :: rest, accepted, enough => by
      simp only [firstErrorOfStatements?, literalsOfStatements,
        Option.or_eq_none_iff, List.length_append] at accepted enough
      refine .seq (statement.plan_balanced accepted.1 (by omega))
        (planStatements_balanced rest accepted.2 ?_)
      simp only [Stmt.advance, Numbering.advance]
      omega
termination_by structural statements => statements

/-- The plan of an accepted statement that ends an arm adds a value. -/
theorem Stmt.planTail_balanced
    {pool depth offset : Nat} {numbering : Numbering} :
    (statement : Stmt) →
      statement.firstError? offset numbering = none →
      numbering.pool + statement.literals.length ≤ pool →
      (statement.planTail numbering).Balanced pool depth (depth + 1)
  | .define _ value, accepted, enough => by
      rw [Stmt.firstError?, Option.or_eq_none_iff] at accepted
      exact .seq
        (.seq (value.plan_balanced accepted.1 enough)
          (.single depth rfl nofun rfl rfl))
        (.single depth rfl nofun rfl rfl)
  | .ret _, accepted, _ => by
      cases accepted
  | .expr value, accepted, enough => by
      exact value.plan_balanced accepted enough
  | .block statements, accepted, enough => by
      exact planArm_balanced statements accepted enough
termination_by structural statement => statement

/-- The plan of an accepted arm adds the arm's value. -/
theorem planArm_balanced
    {pool depth offset : Nat} {numbering : Numbering} :
    (statements : List Stmt) →
      firstErrorOfStatements? offset numbering statements = none →
      numbering.pool + (literalsOfStatements statements).length ≤ pool →
      (planArm numbering statements).Balanced pool depth (depth + 1)
  | [], _, _ => by
      exact .single depth rfl nofun rfl rfl
  | statement :: rest, accepted, enough => by
      simp only [firstErrorOfStatements?, literalsOfStatements,
        Option.or_eq_none_iff, List.length_append] at accepted enough
      rw [planArm]
      split
      case isTrue =>
        exact statement.planTail_balanced accepted.1 (by omega)
      case isFalse =>
        refine .seq (statement.plan_balanced accepted.1 (by omega))
          (planArm_balanced rest accepted.2 ?_)
        simp only [Stmt.advance, Numbering.advance]
        omega
termination_by structural statements => statements

end

/-- The plan of a compiled program is balanced. -/
theorem Compiled.balanced
    {scope : Scope} {constants : Array Value} {program : Program}
    {after : Compilation} {depth : Nat}
    (compiled : Compiled scope constants program after) :
    (planStatements ⟨constants.size, scope⟩ program).Balanced
      after.constants.size depth depth := by
  apply planStatements_balanced program compiled.accepted
  simp [compiled.constants_eq]

end StackLang
