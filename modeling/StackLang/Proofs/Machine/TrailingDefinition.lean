import StackLang.Proofs.Machine.Forward
import StackLang.Proofs.Machine.Units
import StackLang.Proofs.Machine.Writes

namespace StackLang

/-!
# Trailing definitions

A definition at the end of a program discards nothing of its own, but its value
may: an arm of a choice discards the values of all its expression statements but
the last. A run of the longer program ends with the result of the program before
the definition, unless a value was discarded on the way to the definition's own.
-/

mutual

/-- An arm in the expression discards the value of a statement. -/
def Expr.discards : Expr → Bool
  | .ident _ | .int _ | .bool _ | .str _ | .function _ _ | .call _ _ =>
      false
  | .unary _ operand =>
      operand.discards
  | .binary left _ right =>
      left.discards || right.discards
  | .ifThen condition consequence =>
      condition.discards || armDiscards consequence
  | .ifElse condition consequence alternative =>
      condition.discards || armDiscards consequence || armDiscards alternative

/-- A statement discards its value, or the value of one in its arms. -/
def Stmt.discards : Stmt → Bool
  | .define _ value =>
      value.discards
  | .ret _ =>
      false
  | .expr _ =>
      true
  | .block statements =>
      statementsDiscard statements

/-- One of the statements discards a value. -/
def statementsDiscard : List Stmt → Bool
  | [] =>
      false
  | statement :: rest =>
      statement.discards || statementsDiscard rest

/-- A statement at the end of an arm discards a value, which is not its own. -/
def Stmt.tailDiscards : Stmt → Bool
  | .define _ value | .expr value =>
      value.discards
  | .ret _ =>
      false
  | .block statements =>
      armDiscards statements

/-- An arm discards a value. -/
def armDiscards : List Stmt → Bool
  | [] =>
      false
  | statement :: rest =>
      if allEmpty rest then
        statement.tailDiscards
      else
        statement.discards || armDiscards rest

end

namespace Plan

/-- No instruction of the plan discards a value. -/
def DiscardsNothing : Plan → Prop
  | .empty =>
      True
  | .single instr =>
      instr.opcode ≠ .pop
  | .seq first second =>
      first.DiscardsNothing ∧ second.DiscardsNothing
  | .choice consequence alternative =>
      consequence.DiscardsNothing ∧ alternative.DiscardsNothing

theorem discardsNothing_unary (operator : String) :
    (ofOperator (unaryOpcode? operator)).DiscardsNothing := by
  unfold unaryOpcode?
  split <;> simp [ofOperator, DiscardsNothing]

theorem discardsNothing_binary (operator : String) :
    (ofOperator (binaryOpcode? operator)).DiscardsNothing := by
  unfold binaryOpcode?
  split <;> simp [ofOperator, DiscardsNothing]

/-- A plan that discards nothing keeps the value that was discarded last. -/
theorem DiscardsNothing.preserves
    {plan : Plan} (nothing : plan.DiscardsNothing)
    (constants : Array Value) (offset : Nat) :
    Preserves Machine.lastPopped (plan.execute constants offset) := by
  induction plan generalizing offset with
  | empty =>
      exact fun _ => rfl
  | single instr =>
      have preserved := instr.execute_preserves_lastPopped nothing constants 0
      exact (preserved.bind fun _ _ => rfl).locate
  | seq first second firstHypothesis secondHypothesis =>
      exact (firstHypothesis nothing.1 offset).bind fun _ =>
        secondHypothesis nothing.2 _
  | choice consequence alternative consequenceHypothesis
      alternativeHypothesis =>
      refine (Preserves.pop fun _ _ => rfl).locate.bind fun condition => ?_
      split
      · exact consequenceHypothesis nothing.1 _
      · exact alternativeHypothesis nothing.2 _

end Plan

mutual

/-- The plan of an expression discards nothing if no arm in it does. -/
theorem Expr.plan_discardsNothing {numbering : Numbering} :
    (expression : Expr) → expression.discards = false →
      (expression.plan numbering).DiscardsNothing
  | .ident _, _ | .int _, _ | .bool true, _ | .bool false, _ => by
      exact nofun
  | .str _, _ | .function _ _, _ | .call _ _, _ => by
      exact trivial
  | .unary operator operand, nothing => by
      exact ⟨operand.plan_discardsNothing nothing,
        Plan.discardsNothing_unary operator⟩
  | .binary left operator right, nothing => by
      rw [Expr.discards, Bool.or_eq_false_iff] at nothing
      rw [Expr.plan]
      split
      · exact ⟨right.plan_discardsNothing nothing.2,
          left.plan_discardsNothing nothing.1, nofun⟩
      · exact ⟨left.plan_discardsNothing nothing.1,
          right.plan_discardsNothing nothing.2,
          Plan.discardsNothing_binary operator⟩
  | .ifThen condition consequence, nothing => by
      rw [Expr.discards, Bool.or_eq_false_iff] at nothing
      exact ⟨condition.plan_discardsNothing nothing.1,
        planArm_discardsNothing consequence nothing.2, nofun⟩
  | .ifElse condition consequence alternative, nothing => by
      rw [Expr.discards, Bool.or_eq_false_iff, Bool.or_eq_false_iff] at nothing
      exact ⟨condition.plan_discardsNothing nothing.1.1,
        planArm_discardsNothing consequence nothing.1.2,
        planArm_discardsNothing alternative nothing.2⟩
termination_by structural expression => expression

/-- The plan of a statement discards nothing if the statement does not. -/
theorem Stmt.plan_discardsNothing {numbering : Numbering} :
    (statement : Stmt) → statement.discards = false →
      (statement.plan numbering).DiscardsNothing
  | .define _ value, nothing => by
      exact ⟨value.plan_discardsNothing nothing, nofun⟩
  | .ret _, _ => by
      exact trivial
  | .expr _, nothing => by
      cases nothing
  | .block statements, nothing => by
      exact planStatements_discardsNothing statements nothing
termination_by structural statement => statement

/-- The plan of statements discards nothing if none of them does. -/
theorem planStatements_discardsNothing {numbering : Numbering} :
    (statements : List Stmt) → statementsDiscard statements = false →
      (planStatements numbering statements).DiscardsNothing
  | [], _ => by
      exact trivial
  | statement :: rest, nothing => by
      rw [statementsDiscard, Bool.or_eq_false_iff] at nothing
      exact ⟨statement.plan_discardsNothing nothing.1,
        planStatements_discardsNothing rest nothing.2⟩
termination_by structural statements => statements

/-- The plan of a statement that ends an arm discards nothing if the statement
discards nothing there. -/
theorem Stmt.planTail_discardsNothing {numbering : Numbering} :
    (statement : Stmt) → statement.tailDiscards = false →
      (statement.planTail numbering).DiscardsNothing
  | .define _ value, nothing => by
      exact ⟨⟨value.plan_discardsNothing nothing, nofun⟩, nofun⟩
  | .ret _, _ => by
      exact trivial
  | .expr value, nothing => by
      exact value.plan_discardsNothing nothing
  | .block statements, nothing => by
      exact planArm_discardsNothing statements nothing
termination_by structural statement => statement

/-- The plan of an arm discards nothing if the arm does not. -/
theorem planArm_discardsNothing {numbering : Numbering} :
    (statements : List Stmt) → armDiscards statements = false →
      (planArm numbering statements).DiscardsNothing
  | [], _ => by
      exact nofun
  | statement :: rest, nothing => by
      rw [armDiscards] at nothing
      rw [planArm]
      split at nothing
      case isTrue isLast =>
        rw [if_pos isLast]
        exact statement.planTail_discardsNothing nothing
      case isFalse notLast =>
        rw [Bool.or_eq_false_iff] at nothing
        rw [if_neg notLast]
        exact ⟨statement.plan_discardsNothing nothing.1,
          planArm_discardsNothing rest nothing.2⟩
termination_by structural statements => statements

end

/-- Statements in two parts are laid out one part after the other. -/
theorem layout_planStatements_append
    (offset : Nat) (numbering : Numbering) (first second : List Stmt) :
    (planStatements numbering (first ++ second)).layout offset =
      (planStatements numbering first).layout offset ++
        (planStatements (advanceStatements numbering first) second).layout
          (offset + (planStatements numbering first).size) := by
  induction first generalizing offset numbering with
  | nil =>
      rfl
  | cons statement rest inductionHypothesis =>
      simp only [List.cons_append, planStatements, Plan.layout, Plan.size,
        inductionHypothesis, List.append_assoc, advanceStatements_cons,
        Nat.add_assoc]

/-- More constants make no difference to a balanced plan. -/
theorem Plan.execute_more_constants
    {plan : Plan} {constants : Array Value} {before after : Nat}
    (balanced : plan.Balanced constants.size before after)
    (more : Array Value) (offset : Nat) :
    plan.execute (constants ++ more) offset =
      plan.execute constants offset := by
  funext machine
  have relocated :=
    Plan.execute_relocates balanced more 0 offset none machine
  simp only [Machine.recalling, RuntimeError.shifted, Option.or_none,
    Nat.zero_add] at relocated
  rw [relocated]
  cases plan.execute constants offset machine <;> rfl

section Ends

variable {plan : Plan} {bytecode : Bytecode} {start finished : Machine}
variable (straight : plan.Straight)
variable (consists : bytecode.code.Consists (plan.layout 0))

include straight consists

/-- A run of enough steps finishes if its plan can be executed. -/
theorem Plan.finished_of_execute
    (forward : bytecode.RunsForward start)
    (executed : plan.execute bytecode.constants 0 start = .ok () finished)
    {fuel : Nat} (enough : bytecode.code.size < fuel) :
    bytecode.run fuel start = .finished finished := by
  have ended : (bytecode.run fuel start).HasEnded :=
    forward.ends fuel enough
  rw [Plan.run_of_ended straight consists ended, executed]
  rfl

end Ends

/-- A run that finishes has come to the end of a program's first part with the
machine that a run of this part alone finishes with, and has executed the second
part from there. -/
theorem exists_machine_between
    {first second : Program} {longer : Bytecode} {fuel : Nat}
    {start finished : Machine}
    (succeeded : compile (first ++ second) = .ok longer)
    (finishes : longer.run fuel start = .finished finished) :
    ∃ shorter machine steps,
      compile first = .ok shorter ∧
        (∀ more, shorter.code.size < more →
          shorter.run more start = .finished machine) ∧
        longer.run steps start = .running shorter.code.size machine ∧
        (planStatements (advanceStatements ⟨0, .empty⟩ first) second).execute
            longer.constants shorter.code.size machine =
          .ok () finished := by
  obtain ⟨after, rfl, compiled⟩ := compiled_of_compile succeeded
  have accepted :=
    firstErrorOfStatements?_append_eq_none_iff.mp compiled.accepted
  obtain ⟨shorter, shorterSucceeded⟩ :=
    exists_compile_eq_ok_iff.mpr accepted.1
  obtain ⟨afterFirst, rfl, compiledFirst⟩ :=
    compiled_of_compile shorterSucceeded
  let plan := planStatements ⟨0, .empty⟩ first
  have balanced : plan.Balanced afterFirst.bytecode.constants.size 0 0 :=
    compiledFirst.balanced
  have consists : afterFirst.bytecode.code.Consists (plan.layout 0) :=
    compiledFirst.consists
  have size : afterFirst.bytecode.code.size = plan.size := by
    rw [consists.size_eq, plan.codeSize_layout]
  have constants :
      after.bytecode.constants =
        afterFirst.bytecode.constants ++
          ((literalsOfStatements second).map Value.int).toArray := by
    simp [Compilation.bytecode, compiled.constants_eq,
      compiledFirst.constants_eq]
  have wholeBalanced :
      (planStatements ⟨0, .empty⟩ (first ++ second)).Balanced
        after.bytecode.constants.size 0 0 :=
    compiled.balanced
  have executed :=
    Plan.execute_of_finished wholeBalanced.straight compiled.consists finishes
  rw [execute_planStatements_append] at executed
  simp only [Bind.bind, EStateM.bind] at executed
  cases executedFirst : plan.execute after.bytecode.constants 0 start with
  | error error machine =>
      rw [executedFirst] at executed
      cases executed
  | ok _ machine =>
      rw [executedFirst, Nat.zero_add, ← size] at executed
      have alone := executedFirst
      rw [constants, Plan.execute_more_constants balanced] at alone
      have holds : after.bytecode.code.Holds 0 (plan.layout 0) := by
        have whole := compiled.consists.holds
        rw [layout_planStatements_append] at whole
        exact whole.left
      obtain ⟨steps, reaches⟩ :=
        plan.execute_reaches balanced.straight holds start
      have comes := reaches 0
      rw [executedFirst, Nat.zero_add, ← size] at comes
      exact ⟨afterFirst.bytecode, machine, steps, shorterSucceeded,
        fun _ enough =>
          Plan.finished_of_execute balanced.straight consists
            (compiledFirst.wellFormed.runsForward start) alone enough,
        comes, executed⟩

/--
A run of a program with a definition at its end comes to the definition with the
machine that the program alone finishes with. It finishes with the value that it
discards last behind this, and otherwise with the result of the program. If no
arm of the defined value discards one, the result is that of the program.
-/
theorem result_of_trailing_definition
    {program : Program} {name : String} {value : Expr} {longer : Bytecode}
    {fuel : Nat} {start finished : Machine}
    (succeeded : compile (program ++ [.define name value]) = .ok longer)
    (finishes : longer.run fuel start = .finished finished) :
    ∃ shorter machine steps,
      compile program = .ok shorter ∧
        (∀ more, shorter.code.size < more →
          shorter.run more start = .finished machine) ∧
        steps ≤ fuel ∧
        longer.run steps start = .running shorter.code.size machine ∧
        finished.lastPopped =
          (longer.discardsFrom (fuel - steps) shorter.code.size
            machine).getLast?.or machine.lastPopped ∧
        (value.discards = false → finished.result = machine.result) := by
  obtain ⟨shorter, machine, steps, shorterSucceeded, alone, comes, executed⟩ :=
    exists_machine_between succeeded finishes
  have inTime : steps ≤ fuel :=
    Nat.le_of_lt (Bytecode.lt_of_running_of_ended comes
      (Progress.hasEnded_of_finished finishes))
  refine ⟨shorter, machine, steps, shorterSucceeded, alone, inTime, comes,
    ?discarded, ?nothing⟩
  case discarded =>
    have left :=
      longer.lastPopped_runFrom shorter.code.size machine (fuel - steps)
    rw [← Nat.add_sub_of_le inTime, Bytecode.run, Bytecode.runFrom_add,
      ← Bytecode.run, comes] at finishes
    have rest :
        longer.runFrom (fuel - steps) shorter.code.size machine =
          .finished finished :=
      finishes
    rw [rest] at left
    exact left
  case nothing =>
    intro nothing
    have discardsNothing :
        statementsDiscard [.define name value] = false := by
      rw [statementsDiscard, Stmt.discards, nothing]
      rfl
    have planDiscardsNothing :
        (planStatements (advanceStatements ⟨0, .empty⟩ program)
          [.define name value]).DiscardsNothing :=
      planStatements_discardsNothing _ discardsNothing
    have preserved :=
      planDiscardsNothing.preserves longer.constants shorter.code.size machine
    rw [executed] at preserved
    exact congrArg (·.getD .null) preserved

/-- A definition by a choice whose arm has one statement, and keeps its value. -/
theorem result_before_choice :
    ∃ longer finished,
      compile
          ([.expr (.int 5)] ++
            [.define "a" (.ifThen (.bool true) [.expr (.int 8)])]) =
          .ok longer ∧
        longer.run 9 .initial = .finished finished ∧
        ∃ shorter machine steps,
          compile [.expr (.int 5)] = .ok shorter ∧
            (∀ more, shorter.code.size < more →
              shorter.run more .initial = .finished machine) ∧
            steps ≤ 9 ∧
            longer.run steps .initial =
              .running shorter.code.size machine ∧
            finished.lastPopped =
              (longer.discardsFrom (9 - steps) shorter.code.size
                machine).getLast?.or machine.lastPopped ∧
            (Expr.discards (.ifThen (.bool true) [.expr (.int 8)]) = false →
              finished.result = machine.result) := by
  let longer : Bytecode :=
    ⟨⟨#[0, 0, 0, 2, 6, 13, 0, 14, 0, 0, 1, 14, 0, 15, 15, 17, 0, 0]⟩,
      #[.int 5, .int 8]⟩
  have compiled :
      compile
          ([.expr (.int 5)] ++
            [.define "a" (.ifThen (.bool true) [.expr (.int 8)])]) =
        .ok longer :=
    rfl
  have finishes :
      longer.run 9 .initial =
        .finished ⟨2048, #[], #[.int 8], some (.int 5)⟩ := by
    decide +kernel
  exact ⟨_, _, compiled, finishes,
    result_of_trailing_definition compiled finishes⟩

/-- A definition by a choice whose arm has two statements: the value of the first
one is discarded, and becomes the result. -/
theorem trailing_definition_replaces_result :
    ∃ shorter longer machine finished,
      compile [.expr (.int 5)] = .ok shorter ∧
        compile
            ([.expr (.int 5)] ++
              [.define "a"
                (.ifThen (.bool true) [.expr (.int 7), .expr (.int 8)])]) =
          .ok longer ∧
        shorter.run 3 .initial = .finished machine ∧
        longer.run 10 .initial = .finished finished ∧
        machine.result = .int 5 ∧ finished.result = .int 7 := by
  refine ⟨⟨⟨#[0, 0, 0, 2]⟩, #[.int 5]⟩,
    ⟨⟨#[0, 0, 0, 2, 6, 13, 0, 18, 0, 0, 1, 2, 0, 0, 2, 14, 0, 19, 15, 17, 0,
        0]⟩,
      #[.int 5, .int 7, .int 8]⟩,
    ⟨2048, #[], #[], some (.int 5)⟩,
    ⟨2048, #[], #[.int 8], some (.int 7)⟩,
    rfl, rfl, ?shorter, ?longer, rfl, rfl⟩
  case shorter =>
    decide +kernel
  case longer =>
    decide +kernel

end StackLang
