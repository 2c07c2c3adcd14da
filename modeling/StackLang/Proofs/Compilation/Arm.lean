import StackLang.Proofs.Compilation.Assembly
import StackLang.Proofs.Compilation.Rejection

namespace StackLang

/-!
# Arms of a choice

The code of an arm is that of its statements with one change at the end: a
closing pop is taken off, and where there is none, null is pushed. The plan of
an arm says the same without any code to change.
-/

namespace Plan

/-- A plan's layout ends in the operation that the plan ends in. -/
@[simp] theorem lastOpcode?_layout (plan : Plan) (offset : Nat) :
    StackLang.lastOpcode? (plan.layout offset) = plan.lastOpcode? := by
  induction plan generalizing offset with
  | empty =>
      rfl
  | single instr =>
      rfl
  | seq first second firstHypothesis secondHypothesis =>
      simp [layout, lastOpcode?, firstHypothesis, secondHypothesis]
  | choice consequence alternative _ alternativeHypothesis =>
      simp [layout, lastOpcode?, alternativeHypothesis]

/-- The plan has a last instruction, which is not a pop. -/
def EndsInValue (plan : Plan) : Prop :=
  ∃ opcode, plan.lastOpcode? = some opcode ∧ opcode ≠ .pop

/-- A sequence ends as its second part does. -/
theorem EndsInValue.seq
    {first second : Plan} (ends : second.EndsInValue) :
    (Plan.seq first second).EndsInValue := by
  obtain ⟨opcode, isLast, notPop⟩ := ends
  exact ⟨opcode, by simp [lastOpcode?, isLast], notPop⟩

/-- A choice ends as its alternative does. -/
theorem EndsInValue.choice
    {consequence alternative : Plan} (ends : alternative.EndsInValue) :
    (Plan.choice consequence alternative).EndsInValue := by
  obtain ⟨opcode, isLast, notPop⟩ := ends
  exact ⟨opcode, by simp [lastOpcode?, isLast], notPop⟩

theorem EndsInValue.single
    {instr : Instr} (notPop : instr.opcode ≠ .pop) :
    (Plan.single instr).EndsInValue :=
  ⟨instr.opcode, rfl, notPop⟩

end Plan

/-- The code of an operator that is not a pop ends in its value. -/
theorem Plan.EndsInValue.ofOperator
    {operator : String} {opcode? : Option Opcode}
    (accepted : operatorError? operator opcode? = none)
    (notPop : opcode? ≠ some .pop) :
    (Plan.ofOperator opcode?).EndsInValue := by
  obtain ⟨opcode, rfl⟩ := exists_opcode_of_accepted accepted
  exact .single fun isPop => notPop (congrArg some isPop)

/-- No prefix operator is a pop. -/
theorem unaryOpcode?_ne_pop (operator : String) :
    unaryOpcode? operator ≠ some .pop := by
  intro found
  rcases unaryOpcode?_cases found with ⟨_, isPop⟩ | ⟨_, isPop⟩ <;>
    cases isPop

/-- No infix operator is a pop. -/
theorem binaryOpcode?_ne_pop (operator : String) :
    binaryOpcode? operator ≠ some .pop := by
  intro found
  rcases binaryOpcode?_cases found with
    ⟨_, isPop⟩ | ⟨_, isPop⟩ | ⟨_, isPop⟩ | ⟨_, isPop⟩ | ⟨_, isPop⟩ |
      ⟨_, isPop⟩ | ⟨_, isPop⟩ <;>
    cases isPop

mutual

/-- The code of an accepted expression ends in its value. -/
theorem Expr.plan_endsInValue {offset : Nat} {numbering : Numbering} :
    (expression : Expr) →
      expression.firstError? offset numbering = none →
      (expression.plan numbering).EndsInValue
  | .ident _, _ | .int _, _ | .bool true, _ | .bool false, _ => by
      exact .single nofun
  | .str _, accepted | .function _ _, accepted | .call _ _, accepted => by
      cases accepted
  | .unary operator operand, accepted => by
      rw [Expr.firstError?, Option.or_eq_none_iff] at accepted
      exact .seq (.ofOperator accepted.2 (unaryOpcode?_ne_pop operator))
  | .binary left operator right, accepted => by
      rw [Expr.plan]
      split
      case isTrue =>
        exact .seq (.seq (.single nofun))
      case isFalse otherOperator =>
        simp only [Expr.firstError?, if_neg otherOperator,
          Option.or_eq_none_iff] at accepted
        exact .seq
          (.seq (.ofOperator accepted.2.2 (binaryOpcode?_ne_pop operator)))
  | .ifThen _ _, _ => by
      exact .seq (.choice (.single nofun))
  | .ifElse condition consequence alternative, accepted => by
      simp only [Expr.firstError?, Option.or_eq_none_iff] at accepted
      exact .seq
        (.choice (planArm_endsInValue alternative accepted.2.2.2.1))
termination_by structural expression => expression

/-- The code of an accepted statement at the end of an arm ends in a value. -/
theorem Stmt.planTail_endsInValue {offset : Nat} {numbering : Numbering} :
    (statement : Stmt) →
      statement.firstError? offset numbering = none →
      (statement.planTail numbering).EndsInValue
  | .define _ _, _ => by
      exact .seq (.single nofun)
  | .ret _, accepted => by
      cases accepted
  | .expr value, accepted => by
      exact value.plan_endsInValue accepted
  | .block statements, accepted => by
      exact planArm_endsInValue statements accepted
termination_by structural statement => statement

/-- The code of an accepted arm ends in a value. -/
theorem planArm_endsInValue {offset : Nat} {numbering : Numbering} :
    (statements : List Stmt) →
      firstErrorOfStatements? offset numbering statements = none →
      (planArm numbering statements).EndsInValue
  | [], _ => by
      exact .single nofun
  | statement :: rest, accepted => by
      rw [firstErrorOfStatements?, Option.or_eq_none_iff] at accepted
      rw [planArm]
      split
      · exact statement.planTail_endsInValue accepted.1
      · exact .seq (planArm_endsInValue rest accepted.2)
termination_by structural statements => statements

end

mutual

/-- A statement is empty exactly when it has no code. -/
theorem Stmt.isEmpty_iff {offset : Nat} {numbering : Numbering} :
    (statement : Stmt) →
      statement.firstError? offset numbering = none →
      (statement.isEmpty = true ↔ (statement.plan numbering).lastOpcode? = none)
  | .define _ _, _ | .expr _, _ => by
      simp [Stmt.isEmpty, Stmt.plan, Plan.lastOpcode?]
  | .ret _, accepted => by
      cases accepted
  | .block statements, accepted => by
      exact allEmpty_iff statements accepted
termination_by structural statement => statement

/-- Statements are all empty exactly when they have no code. -/
theorem allEmpty_iff {offset : Nat} {numbering : Numbering} :
    (statements : List Stmt) →
      firstErrorOfStatements? offset numbering statements = none →
      (allEmpty statements = true ↔
        (planStatements numbering statements).lastOpcode? = none)
  | [], _ => by
      simp [allEmpty, planStatements, Plan.lastOpcode?]
  | statement :: rest, accepted => by
      rw [firstErrorOfStatements?, Option.or_eq_none_iff] at accepted
      simp [allEmpty, planStatements, Plan.lastOpcode?,
        statement.isEmpty_iff accepted.1, allEmpty_iff rest accepted.2,
        and_comm]
termination_by structural statements => statements

end

/-- The code of an arm, made of the code of its statements. -/
def RetainsValue (arm code : List Instr) : Prop :=
  code = arm ++ [⟨.pop, []⟩] ∨
    (arm = code ++ [⟨.pushNull, []⟩] ∧ lastOpcode? code ≠ some .pop)

/-- Code in front of an arm's statements stays in front of the arm. -/
theorem RetainsValue.append
    {arm code : List Instr} (leading : List Instr)
    (retains : RetainsValue arm code)
    (present : lastOpcode? code ≠ none) :
    RetainsValue (leading ++ arm) (leading ++ code) := by
  rcases retains with endsInPop | ⟨padded, notPop⟩
  · exact .inl (by rw [endsInPop, List.append_assoc])
  · refine .inr ⟨by rw [padded, List.append_assoc], ?_⟩
    rw [lastOpcode?_append]
    cases last : lastOpcode? code with
    | none =>
        exact (present last).elim
    | some opcode =>
        rwa [Option.some_or, ← last]

/-- Code that ends in nothing is no code. -/
theorem eq_nil_of_lastOpcode?_eq_none
    {instrs : List Instr} (absent : lastOpcode? instrs = none) :
    instrs = [] := by
  rwa [lastOpcode?, Option.map_eq_none_iff, List.getLast?_eq_none_iff] at absent

mutual

/-- The last statement of an arm retains its value. -/
theorem Stmt.planTail_retainsValue
    {offset : Nat} {numbering : Numbering} (start : Nat) :
    (statement : Stmt) →
      statement.firstError? offset numbering = none →
      RetainsValue ((statement.planTail numbering).layout start)
        ((statement.plan numbering).layout start)
  | .define _ _, _ => by
      exact .inr ⟨by simp [Stmt.planTail, Stmt.plan, Plan.layout],
        by simp [Stmt.plan, Plan.lastOpcode?]⟩
  | .ret _, accepted => by
      cases accepted
  | .expr _, _ => by
      exact .inl (by simp [Stmt.planTail, Stmt.plan, Plan.layout])
  | .block statements, accepted => by
      exact planArm_retainsValue start statements accepted
termination_by structural statement => statement

/-- An arm retains the value of its last expression statement. -/
theorem planArm_retainsValue
    {offset : Nat} {numbering : Numbering} (start : Nat) :
    (statements : List Stmt) →
      firstErrorOfStatements? offset numbering statements = none →
      RetainsValue ((planArm numbering statements).layout start)
        ((planStatements numbering statements).layout start)
  | [], _ => by
      exact .inr ⟨rfl, nofun⟩
  | statement :: rest, accepted => by
      rw [firstErrorOfStatements?, Option.or_eq_none_iff] at accepted
      have restEmpty := allEmpty_iff rest accepted.2
      rw [planArm, planStatements]
      split
      case isTrue nothingFollows =>
        have noCode :
            (planStatements (statement.advance numbering) rest).layout
                (start + (statement.plan numbering).size) = [] :=
          eq_nil_of_lastOpcode?_eq_none
            (by rw [Plan.lastOpcode?_layout, ← restEmpty, nothingFollows])
        rw [Plan.layout, noCode, List.append_nil]
        exact statement.planTail_retainsValue start accepted.1
      case isFalse somethingFollows =>
        have restRetains :=
          planArm_retainsValue
            (start + (statement.plan numbering).size) rest accepted.2
        apply restRetains.append _
        rw [Plan.lastOpcode?_layout]
        exact fun absent => somethingFollows (restEmpty.mpr absent)
termination_by structural statements => statements

end

end StackLang
