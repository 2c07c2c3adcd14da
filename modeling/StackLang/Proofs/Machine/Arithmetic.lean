import Mathlib.Data.Int.ModEq
import StackLang.Proofs.Compilation.StackNeed
import StackLang.Proofs.Machine.Correctness

namespace StackLang

open EvalM

/-!
# Compiled arithmetic

Sums, differences, products and negations of integer literals wrap around at
every step. As wrapping keeps an integer modulo the size of a word, the outcome
is the exact value of the expression, wrapped around once. Nothing but a lack of
room for the operands keeps a run from it.
-/

/-- Expressions made of integer literals with three infix operators and one
prefix operator. -/
inductive Arithmetic where
  | literal (number : Int64)
  | negation (operand : Arithmetic)
  | sum (left right : Arithmetic)
  | difference (left right : Arithmetic)
  | product (left right : Arithmetic)

namespace Arithmetic

/-- The expression as it stands in a program. -/
def expr : Arithmetic → Expr
  | .literal number =>
      .int number
  | .negation operand =>
      .unary "-" operand.expr
  | .sum left right =>
      .binary left.expr "+" right.expr
  | .difference left right =>
      .binary left.expr "-" right.expr
  | .product left right =>
      .binary left.expr "*" right.expr

/-- The value of the expression among all integers. -/
def value : Arithmetic → Int
  | .literal number =>
      number.toInt
  | .negation operand =>
      -operand.value
  | .sum left right =>
      left.value + right.value
  | .difference left right =>
      left.value - right.value
  | .product left right =>
      left.value * right.value

end Arithmetic

section Wrapping

variable (left right : Int)

/-- Operands that are wrapped around do not change what is wrapped around
afterwards. -/
theorem wrapped_sum :
    wrapped ((Int64.ofInt left).toInt + (Int64.ofInt right).toInt) =
      wrapped (left + right) := by
  rw [wrapped_add, ← Int64.ofInt_add, wrapped]

theorem wrapped_difference :
    wrapped ((Int64.ofInt left).toInt - (Int64.ofInt right).toInt) =
      wrapped (left - right) := by
  rw [wrapped_sub, ← Int64.ofInt_sub, wrapped]

theorem wrapped_product :
    wrapped ((Int64.ofInt left).toInt * (Int64.ofInt right).toInt) =
      wrapped (left * right) := by
  rw [wrapped_mul, ← Int64.ofInt_mul, wrapped]

theorem wrapped_negation (number : Int) :
    wrapped (-(Int64.ofInt number).toInt) = wrapped (-number) := by
  rw [wrapped_neg, ← Int64.ofInt_neg, wrapped]

/-- A wrapped integer is congruent to the integer. -/
theorem toInt_ofInt_modEq (number : Int) :
    (Int64.ofInt number).toInt ≡ number [ZMOD 2 ^ 64] := by
  rw [Int64.toInt_ofInt]
  exact Int.bmod_emod

end Wrapping

/-- Evaluating the expression gives the integer, wrapped around, wherever there
is room for it, and overflows the stack elsewhere. The store is left as it is. -/
def Expr.Computes (expression : Expr) (number : Int) : Prop :=
  ∀ room bound store,
    expression.evaluate room bound store =
      if expression.stackNeed ≤ room then
        .ok (wrapped number) store
      else
        .error (.fault .stackOverflow) store

namespace Expr.Computes

variable {left right : Expr} {leftNumber rightNumber number : Int}

/-- A literal needs one place. -/
theorem literal (number : Int64) : (Expr.int number).Computes number.toInt := by
  intro room bound store
  have same : wrapped number.toInt = .int number := by
    rw [wrapped, Int64.ofInt_toInt]
  rw [same]
  cases room with
  | zero =>
      rfl
  | succ room =>
      have enough : (Expr.int number).stackNeed ≤ room + 1 :=
        Nat.le_add_left 1 room
      rw [if_pos enough]
      rfl

/-- A negation needs no place of its own. -/
theorem negation (computes : left.Computes leftNumber) :
    (Expr.unary "-" left).Computes (-leftNumber) := by
  intro room bound store
  have operand := computes room bound store
  rw [Expr.evaluate, Expr.stackNeed]
  by_cases enough : left.stackNeed ≤ room
  · rw [if_pos enough] at operand ⊢
    rw [bind_of_ok operand, ← wrapped_negation]
    rfl
  · rw [if_neg enough] at operand ⊢
    exact bind_of_error operand _

/-- The second operand is evaluated beside the value of the first one. -/
theorem binary
    {operator : String} (notLess : operator ≠ "<")
    (applies :
      applyBinary operator (wrapped leftNumber) (wrapped rightNumber) =
        pure (wrapped number))
    (leftComputes : left.Computes leftNumber)
    (rightComputes : right.Computes rightNumber) :
    (Expr.binary left operator right).Computes number := by
  intro room bound store
  have first := leftComputes room bound store
  have second := rightComputes (room - 1) (bound ++ left.lets) store
  have positive := right.stackNeed_pos
  rw [Expr.evaluate, Expr.stackNeed, if_neg notLess, if_neg notLess]
  by_cases leftFits : left.stackNeed ≤ room
  · rw [if_pos leftFits] at first
    rw [bind_of_ok first]
    by_cases rightFits : right.stackNeed ≤ room - 1
    · have enough : max left.stackNeed (1 + right.stackNeed) ≤ room := by
        omega
      rw [if_pos rightFits] at second
      rw [bind_of_ok second, applies, if_pos enough]
      rfl
    · have tooMuch : ¬ max left.stackNeed (1 + right.stackNeed) ≤ room := by
        omega
      rw [if_neg rightFits] at second
      rw [if_neg tooMuch]
      exact bind_of_error second _
  · have tooMuch : ¬ max left.stackNeed (1 + right.stackNeed) ≤ room := by
      omega
    rw [if_neg leftFits] at first
    rw [if_neg tooMuch]
    exact bind_of_error first _

/-- As a statement, the expression leaves its value as the last one. -/
theorem evaluateStatements_eq
    (computes : left.Computes number) (room : Nat) (bound : List String)
    (store : Store) :
    evaluateStatements room bound [.expr left] store =
      if left.stackNeed ≤ room then
        .ok () { store with lastPopped := some (wrapped number) }
      else
        .error (.fault .stackOverflow) store := by
  have evaluated := computes room bound store
  rw [evaluateStatements, Stmt.evaluate, bind_assoc]
  by_cases enough : left.stackNeed ≤ room
  · rw [if_pos enough] at evaluated ⊢
    rw [bind_of_ok evaluated]
    rfl
  · rw [if_neg enough] at evaluated ⊢
    exact bind_of_error evaluated _

end Expr.Computes

/-- Evaluation wraps around at every step, and so computes the exact value. -/
theorem Arithmetic.computes (arithmetic : Arithmetic) :
    arithmetic.expr.Computes arithmetic.value := by
  induction arithmetic with
  | literal number =>
      exact .literal number
  | negation operand operandComputes =>
      exact operandComputes.negation
  | sum left right leftComputes rightComputes =>
      refine .binary (by decide) ?_ leftComputes rightComputes
      rw [value, ← wrapped_sum]
      rfl
  | difference left right leftComputes rightComputes =>
      refine .binary (by decide) ?_ leftComputes rightComputes
      rw [value, ← wrapped_difference]
      rfl
  | product left right leftComputes rightComputes =>
      refine .binary (by decide) ?_ leftComputes rightComputes
      rw [value, ← wrapped_product]
      rfl

/-- The code of a program that was compiled after others runs as the program is
evaluated, on whatever the others have left in the variables and on the stack. -/
theorem Compiled.run_agrees
    {constants : Array Value} {bound : List String} {program : Program}
    {after : Compilation} {capacity : Nat} {stack : Array Value}
    (compiled :
      Compiled (Scope.empty.defineAll bound) constants program after)
    (fits : stack.size ≤ capacity) (store : Store) :
    ∃ executed,
      Agrees capacity (fun _ => stack)
          (evaluateStatements (capacity - stack.size) bound program store)
          executed ∧
        ∃ steps, ∀ fuel, steps ≤ fuel →
          after.bytecode.run fuel (store.machine capacity stack) =
            .ofResult executed := by
  let numbering : Numbering := ⟨constants.size, Scope.empty.defineAll bound⟩
  have balanced :
      (planStatements numbering program).Balanced
        after.bytecode.constants.size 0 0 :=
    compiled.balanced
  have pooled :
      Pooled after.bytecode.constants numbering.pool
        (literalsOfStatements program) := by
    refine ⟨[], ?_⟩
    simp [numbering, Compilation.bytecode, compiled.constants_eq]
  have simulates :
      Simulates capacity stack (fun _ => stack)
        (evaluateStatements (capacity - stack.size) bound program)
        ((planStatements numbering program).execute
          after.bytecode.constants 0) :=
    planStatements_simulates program compiled.accepted rfl pooled rfl
  exact ⟨_, simulates fits store,
    Plan.run_eq balanced.straight compiled.consists _⟩

/-- A compiled expression of literals ends on a fresh machine of any capacity. It
overflows the stack if there are fewer places than it needs. Otherwise its value
is the integer of a word that is congruent to the exact one. -/
theorem arithmetic_is_exact_modulo_word
    {arithmetic : Arithmetic} {bytecode : Bytecode}
    (succeeded : compile [.expr arithmetic.expr] = .ok bytecode)
    (capacity : Nat) :
    ∃ steps, ∀ fuel, steps ≤ fuel →
      if arithmetic.expr.stackNeed ≤ capacity then
        ∃ machine number,
          bytecode.run fuel (.ofCapacity capacity) = .finished machine ∧
            machine.lastPopped = some (.int number) ∧
            -2 ^ 63 ≤ number.toInt ∧ number.toInt < 2 ^ 63 ∧
            number.toInt ≡ arithmetic.value [ZMOD 2 ^ 64]
      else
        ∃ offset machine,
          bytecode.run fuel (.ofCapacity capacity) =
            .failed ⟨offset, .stackOverflow⟩ machine := by
  obtain ⟨after, rfl, compiled⟩ := compiled_of_compile succeeded
  have compiledFirst :
      Compiled (Scope.empty.defineAll []) #[] [.expr arithmetic.expr] after :=
    compiled
  have emptyFits : (#[] : Array Value).size ≤ capacity :=
    Nat.zero_le capacity
  obtain ⟨executed, agrees, steps, runs⟩ :=
    compiledFirst.run_agrees emptyFits ⟨#[], none⟩
  rw [arithmetic.computes.evaluateStatements_eq] at agrees
  refine ⟨steps, fun fuel enough => ?_⟩
  have run :
      after.bytecode.run fuel (.ofCapacity capacity) = .ofResult executed :=
    runs fuel enough
  by_cases fits : arithmetic.expr.stackNeed ≤ capacity
  case pos =>
    have evaluates :
        arithmetic.expr.stackNeed ≤ capacity - (#[] : Array Value).size :=
      fits
    rw [if_pos evaluates] at agrees
    rw [if_pos fits]
    cases executed with
    | ok _ machine =>
        obtain ⟨rfl, _⟩ := agrees
        exact ⟨_, Int64.ofInt arithmetic.value, run, rfl, Int64.le_toInt _,
          Int64.toInt_lt _, toInt_ofInt_modEq _⟩
    | error error machine =>
        exact agrees.elim
  case neg =>
    have overflows :
        ¬ arithmetic.expr.stackNeed ≤ capacity - (#[] : Array Value).size :=
      fits
    rw [if_neg overflows] at agrees
    rw [if_neg fits]
    cases executed with
    | ok _ machine =>
        exact agrees.elim
    | error error machine =>
        obtain ⟨isOverflow, _⟩ := agrees
        exact ⟨error.offset, machine, by rw [run, ← isOverflow]; rfl⟩

/-- The negation of the least integer and a product are out of the range of a
word, and their difference is in it. It needs three places. -/
theorem arithmetic_is_exact_leastInteger :
    ∃ bytecode,
      compile
          [.expr
            (.binary (.unary "-" (.int Int64.minValue)) "-"
              (.binary (.int Int64.maxValue) "*" (.int 2)))] =
          .ok bytecode ∧
        (∃ steps, ∀ fuel, steps ≤ fuel →
          ∃ machine number,
            bytecode.run fuel (.ofCapacity 3) = .finished machine ∧
              machine.lastPopped = some (.int number) ∧
              -2 ^ 63 ≤ number.toInt ∧ number.toInt < 2 ^ 63 ∧
              number.toInt ≡ -9223372036854775806 [ZMOD 2 ^ 64]) ∧
        ∃ steps, ∀ fuel, steps ≤ fuel →
          ∃ offset machine,
            bytecode.run fuel (.ofCapacity 2) =
              .failed ⟨offset, .stackOverflow⟩ machine := by
  let arithmetic : Arithmetic :=
    .difference (.negation (.literal Int64.minValue))
      (.product (.literal Int64.maxValue) (.literal 2))
  have compiles : ∃ bytecode, compile [.expr arithmetic.expr] = .ok bytecode :=
    ⟨_, rfl⟩
  obtain ⟨bytecode, succeeded⟩ := compiles
  exact ⟨bytecode, succeeded, arithmetic_is_exact_modulo_word succeeded 3,
    arithmetic_is_exact_modulo_word succeeded 2⟩

end StackLang
