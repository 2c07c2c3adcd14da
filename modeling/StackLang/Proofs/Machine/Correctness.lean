import StackLang.Proofs.Compilation.Names
import StackLang.Proofs.Machine.Simulation

namespace StackLang

open EvalM

/-!
# Compiled programs are evaluated

Running the code of a program on a fresh machine of any capacity ends, and ends
as evaluating the program with that much room does: with the same variables and
the same last value, and with the same fault if there is one.
-/

/-- The pool holds literals from an index on. -/
def Pooled
    (constants : Array Value) (pool : Nat) (literals : List Int64) : Prop :=
  ∃ rest, constants.toList.drop pool = literals.map Value.int ++ rest

namespace Pooled

variable {constants : Array Value} {pool : Nat}
variable {first second : List Int64}

theorem left (pooled : Pooled constants pool (first ++ second)) :
    Pooled constants pool first := by
  obtain ⟨rest, shape⟩ := pooled
  exact ⟨second.map Value.int ++ rest, by simp [shape]⟩

theorem right (pooled : Pooled constants pool (first ++ second)) :
    Pooled constants (pool + first.length) second := by
  obtain ⟨rest, shape⟩ := pooled
  refine ⟨rest, ?_⟩
  rw [← List.drop_drop, shape, List.map_append, List.append_assoc,
    List.drop_left']
  rw [List.length_map]

theorem get {number : Int64} (pooled : Pooled constants pool [number]) :
    constants[pool]? = some (.int number) := by
  obtain ⟨rest, shape⟩ := pooled
  have head : (constants.toList.drop pool)[0]? = some (.int number) := by
    rw [shape]
    rfl
  rwa [List.getElem?_drop, Nat.add_zero, Array.getElem?_toList] at head

end Pooled

/-- One value more on the stack leaves one place less. -/
theorem room_push
    {room capacity : Nat} {stack : Array Value}
    (places : room = capacity - stack.size) (value : Value) :
    room - 1 = capacity - (stack.push value).size := by
  rw [Array.size_push]
  omega

mutual

/-- Executing the plan of an accepted expression pushes its value. -/
theorem Expr.plan_simulates
    {offset place capacity room : Nat} {numbering : Numbering}
    {bound : List String} {constants : Array Value} {stack : Array Value} :
    (expression : Expr) →
      expression.firstError? offset numbering = none →
      numbering.Binds bound →
      Pooled constants numbering.pool expression.literals →
      room = capacity - stack.size →
      Simulates capacity stack (stack.push ·)
        (expression.evaluate room bound)
        ((expression.plan numbering).execute constants place)
  | .ident name, accepted, binds, _, places => by
      subst places
      have resolved := Scope.resolve?_bound bound name
      rw [← binds] at resolved
      simp only [Expr.firstError?, nameError?, resolved] at accepted
      simp only [Expr.plan, Expr.evaluate, resolved]
      cases found : latestSlot? bound name with
      | none =>
          rw [found] at accepted
          cases accepted
      | some slot =>
          exact .read slot
  | .int number, _, _, pooled, places => by
      subst places
      exact .constant pooled.get
  | .bool true, _, _, _, places => by
      subst places
      exact .literal _ (Instr.effect_pushes constants []).1
  | .bool false, _, _, _, places => by
      subst places
      exact .literal _ (Instr.effect_pushes constants []).2.1
  | .str _, accepted, _, _, _ | .function _ _, accepted, _, _, _
  | .call _ _, accepted, _, _, _ => by
      cases accepted
  | .unary operator operand, accepted, binds, pooled, places => by
      rw [Expr.firstError?, Option.or_eq_none_iff] at accepted
      exact (operand.plan_simulates accepted.1 binds pooled places).bind
        fun _ => .unary accepted.2
  | .binary left operator right, accepted, binds, pooled, places => by
      by_cases isLess : operator = "<"
      · simp only [Expr.firstError?, Expr.literals, if_pos isLess,
          Option.or_eq_none_iff] at accepted pooled
        simp only [Expr.plan, Expr.evaluate, if_pos isLess]
        exact
          (right.plan_simulates accepted.1 binds pooled.left places).bind
            fun rightValue =>
              (left.plan_simulates accepted.2 (binds.advance _ _)
                pooled.right (room_push places rightValue)).bind
                fun _ => .greater
      · simp only [Expr.firstError?, Expr.literals, if_neg isLess,
          Option.or_eq_none_iff] at accepted pooled
        simp only [Expr.plan, Expr.evaluate, if_neg isLess]
        exact
          (left.plan_simulates accepted.1 binds pooled.left places).bind
            fun leftValue =>
              (right.plan_simulates accepted.2.1 (binds.advance _ _)
                pooled.right (room_push places leftValue)).bind
                fun _ => .binary accepted.2.2
  | .ifThen condition consequence, accepted, binds, pooled, places => by
      simp only [Expr.firstError?, Option.or_eq_none_iff] at accepted
      have rejected (place : Nat) :
          Simulates capacity stack (stack.push ·)
            (do
              occupy room
              return .null)
            ((Plan.single ⟨.pushNull, []⟩).execute constants place) := by
        subst places
        exact .literal _ (Instr.effect_pushes constants []).2.2
      exact
        (condition.plan_simulates accepted.1 binds pooled.left places).bind
          (.choice
            (fun _ =>
              planArm_simulates consequence accepted.2.1
                (binds.advance _ _) pooled.right places)
            rejected)
  | .ifElse condition consequence alternative, accepted, binds, pooled,
      places => by
      simp only [Expr.firstError?, Option.or_eq_none_iff] at accepted
      exact
        (condition.plan_simulates accepted.1 binds pooled.left places).bind
          (.choice
            (fun _ =>
              planArm_simulates consequence accepted.2.1
                (binds.advance _ _) pooled.right.left places)
            (fun _ =>
              planArm_simulates alternative accepted.2.2.2.1
                ((binds.advance _ _).advance _ _) pooled.right.right places))
termination_by structural expression => expression

/-- Executing the plan of an accepted statement leaves the stack as it was. -/
theorem Stmt.plan_simulates
    {offset place capacity room : Nat} {numbering : Numbering}
    {bound : List String} {constants : Array Value} {stack : Array Value} :
    (statement : Stmt) →
      statement.firstError? offset numbering = none →
      numbering.Binds bound →
      Pooled constants numbering.pool statement.literals →
      room = capacity - stack.size →
      Simulates capacity stack (fun _ => stack)
        (statement.evaluate room bound)
        ((statement.plan numbering).execute constants place)
  | .define name value, accepted, binds, pooled, places => by
      rw [Stmt.firstError?, Option.or_eq_none_iff] at accepted
      have slot := (binds.advance value.literals value.lets).count
      rw [Stmt.plan, Expr.advance, slot]
      exact (value.plan_simulates accepted.1 binds pooled places).bind
        (.write _)
  | .ret _, accepted, _, _, _ => by
      cases accepted
  | .expr value, accepted, binds, pooled, places => by
      exact (value.plan_simulates accepted binds pooled places).bind
        .discard
  | .block statements, accepted, binds, pooled, places => by
      exact planStatements_simulates statements accepted binds pooled places
termination_by structural statement => statement

/-- Executing the plan of accepted statements leaves the stack as it was. -/
theorem planStatements_simulates
    {offset place capacity room : Nat} {numbering : Numbering}
    {bound : List String} {constants : Array Value} {stack : Array Value} :
    (statements : List Stmt) →
      firstErrorOfStatements? offset numbering statements = none →
      numbering.Binds bound →
      Pooled constants numbering.pool (literalsOfStatements statements) →
      room = capacity - stack.size →
      Simulates capacity stack (fun _ => stack)
        (evaluateStatements room bound statements)
        ((planStatements numbering statements).execute constants place)
  | [], _, _, _, _ => by
      intro fits store
      exact ⟨rfl, fits⟩
  | statement :: rest, accepted, binds, pooled, places => by
      rw [firstErrorOfStatements?, Option.or_eq_none_iff] at accepted
      exact
        (statement.plan_simulates accepted.1 binds pooled.left places).bind
          fun _ =>
            planStatements_simulates rest accepted.2 (binds.advance _ _)
              pooled.right places
termination_by structural statements => statements

/-- Executing the plan of a statement that ends an arm pushes its value. -/
theorem Stmt.planTail_simulates
    {offset place capacity room : Nat} {numbering : Numbering}
    {bound : List String} {constants : Array Value} {stack : Array Value} :
    (statement : Stmt) →
      statement.firstError? offset numbering = none →
      numbering.Binds bound →
      Pooled constants numbering.pool statement.literals →
      room = capacity - stack.size →
      Simulates capacity stack (stack.push ·)
        (statement.evaluateTail room bound)
        ((statement.planTail numbering).execute constants place)
  | .define name value, accepted, binds, pooled, places => by
      subst places
      rw [Stmt.firstError?, Option.or_eq_none_iff] at accepted
      have slot := (binds.advance value.literals value.lets).count
      -- The plan has the definition as one part and null as another.
      have inTwoSteps :
          (Stmt.define name value).evaluateTail (capacity - stack.size)
              bound =
            ((do
              let found ← value.evaluate (capacity - stack.size) bound
              writeSlot (bound ++ value.lets).length found) >>= fun _ =>
              (do
                occupy (capacity - stack.size)
                return .null)) := by
        rw [Stmt.evaluateTail, bind_assoc]
      rw [inTwoSteps, Stmt.planTail, Expr.advance, slot]
      exact
        ((value.plan_simulates accepted.1 binds pooled rfl).bind
          (.write _)).bind
          fun _ => .literal _ (Instr.effect_pushes constants []).2.2
  | .ret _, accepted, _, _, _ => by
      cases accepted
  | .expr value, accepted, binds, pooled, places => by
      exact value.plan_simulates accepted binds pooled places
  | .block statements, accepted, binds, pooled, places => by
      exact planArm_simulates statements accepted binds pooled places
termination_by structural statement => statement

/-- Executing the plan of an accepted arm pushes the arm's value. -/
theorem planArm_simulates
    {offset place capacity room : Nat} {numbering : Numbering}
    {bound : List String} {constants : Array Value} {stack : Array Value} :
    (statements : List Stmt) →
      firstErrorOfStatements? offset numbering statements = none →
      numbering.Binds bound →
      Pooled constants numbering.pool (literalsOfStatements statements) →
      room = capacity - stack.size →
      Simulates capacity stack (stack.push ·)
        (evaluateArm room bound statements)
        ((planArm numbering statements).execute constants place)
  | [], _, _, _, places => by
      subst places
      exact .literal _ (Instr.effect_pushes constants []).2.2
  | statement :: rest, accepted, binds, pooled, places => by
      rw [firstErrorOfStatements?, Option.or_eq_none_iff] at accepted
      rw [planArm, evaluateArm]
      split
      case isTrue =>
        exact statement.planTail_simulates accepted.1 binds pooled.left
          places
      case isFalse =>
        exact
          (statement.plan_simulates accepted.1 binds pooled.left places).bind
            fun _ =>
              planArm_simulates rest accepted.2 (binds.advance _ _)
                pooled.right places
termination_by structural statements => statements

end

/-- The run of a program's code on a fresh machine ends as the evaluation of the
program does. -/
def Bytecode.RunsAs
    (bytecode : Bytecode) (capacity fuel : Nat) :
    EStateM.Result Stop Store PUnit → Prop
  | .ok _ store =>
      bytecode.run fuel (.ofCapacity capacity) =
        .finished (store.machine capacity #[])
  | .error (.fault fault) store =>
      ∃ offset stack,
        bytecode.run fuel (.ofCapacity capacity) =
          .failed ⟨offset, fault⟩ (store.machine capacity stack)
  | .error .meaningless _ =>
      False

/-- A run that ended in a result that agrees with evaluation. -/
theorem Agrees.runsAs
    {bytecode : Bytecode} {capacity fuel : Nat}
    {evaluated : EStateM.Result Stop Store PUnit}
    {executed : EStateM.Result RuntimeError Machine PUnit}
    (agrees : Agrees capacity (fun _ => #[]) evaluated executed)
    (ends :
      bytecode.run fuel (.ofCapacity capacity) = .ofResult executed) :
    bytecode.RunsAs capacity fuel evaluated := by
  cases evaluated with
  | ok _ store =>
      cases executed with
      | ok _ machine =>
          obtain ⟨rfl, _⟩ := agrees
          exact ends
      | error error machine =>
          exact agrees.elim
  | error stop store =>
      cases executed with
      | ok _ machine =>
          cases stop <;> exact agrees.elim
      | error error machine =>
          cases stop with
          | fault fault =>
              obtain ⟨rfl, stack, rfl⟩ := agrees
              exact ⟨error.offset, stack, ends⟩
          | meaningless =>
              exact agrees.elim

/-- Every program that is compiled runs as it is evaluated. -/
theorem runsAs_of_compile
    {program : Program} {bytecode : Bytecode}
    (succeeded : compile program = .ok bytecode) (capacity : Nat) :
    ∃ steps, ∀ fuel, steps ≤ fuel →
      bytecode.RunsAs capacity fuel (program.evaluate capacity) := by
  obtain ⟨after, rfl, compiled⟩ := compiled_of_compile succeeded
  let plan := planStatements ⟨0, .empty⟩ program
  have balanced : plan.Balanced after.constants.size 0 0 :=
    compiled.balanced
  have consists : after.bytecode.code.Consists (plan.layout 0) :=
    compiled.consists
  have binds : (Numbering.mk 0 .empty).Binds [] :=
    rfl
  have pooled :
      Pooled after.bytecode.constants 0 (literalsOfStatements program) := by
    refine ⟨[], ?_⟩
    simp [Compilation.bytecode, compiled.constants_eq]
  have simulates :
      Simulates capacity #[] (fun _ => #[])
        (evaluateStatements capacity [] program)
        (plan.execute after.bytecode.constants 0) :=
    planStatements_simulates program compiled.accepted binds pooled rfl
  obtain ⟨steps, runs⟩ :=
    plan.run_eq balanced.straight consists (.ofCapacity capacity)
  refine ⟨steps, fun fuel enough => ?_⟩
  have agrees :
      Agrees capacity (fun _ => #[]) (program.evaluate capacity)
        (plan.execute after.bytecode.constants 0 (.ofCapacity capacity)) :=
    simulates (Nat.zero_le _) ⟨#[], none⟩
  exact agrees.runsAs (runs fuel enough)

/-- A definition, a discarded value, and a comparison that fails with its
operands swapped. -/
theorem runsAs_comparison :
    ∃ bytecode,
      compile
          [.define "a" (.int 1), .expr (.int 5),
            .expr (.binary (.bool true) "<" (.int 2))] = .ok bytecode ∧
        ∃ steps, ∀ fuel, steps ≤ fuel →
          ∃ offset stack,
            bytecode.run fuel (.ofCapacity 2) =
              .failed
                ⟨offset,
                  .unsupportedOperands .greaterThan "INTEGER" "BOOLEAN"⟩
                ⟨2, stack, #[.int 1], some (.int 5)⟩ := by
  have accepted :
      ∃ bytecode,
        compile
            [.define "a" (.int 1), .expr (.int 5),
              .expr (.binary (.bool true) "<" (.int 2))] = .ok bytecode :=
    ⟨_, rfl⟩
  obtain ⟨bytecode, succeeded⟩ := accepted
  exact ⟨bytecode, succeeded, runsAs_of_compile succeeded 2⟩

end StackLang
