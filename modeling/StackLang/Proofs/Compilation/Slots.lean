import StackLang.Proofs.Compilation.Accepted

namespace StackLang

/-!
# Slots in plans

A plan writes slots in their order, one for each definition, and reads only
slots that are written before it or earlier in it.
-/

namespace Scope

/-- Every slot that a name denotes was taken by a definition. -/
def Bounded (scope : Scope) : Prop :=
  ∀ name slot, scope.resolve? name = some slot → slot < scope.count

theorem bounded_empty : empty.Bounded := by
  intro name slot resolved
  rw [resolve?_empty] at resolved
  cases resolved

theorem Bounded.define
    {scope : Scope} (bounded : scope.Bounded) (name : String) :
    (scope.define name).Bounded := by
  intro other slot resolved
  rw [resolve?_define] at resolved
  rw [count_define]
  split at resolved
  · cases resolved
    exact Nat.lt_succ_self _
  · exact Nat.lt_succ_of_lt (bounded other slot resolved)

theorem Bounded.defineAll
    {scope : Scope} (bounded : scope.Bounded) (names : List String) :
    (scope.defineAll names).Bounded := by
  induction names generalizing scope with
  | nil =>
      exact bounded
  | cons name rest inductionHypothesis =>
      exact inductionHypothesis (bounded.define name)

@[simp] theorem count_defineAll (scope : Scope) (names : List String) :
    (scope.defineAll names).count = scope.count + names.length := by
  induction names generalizing scope with
  | nil =>
      rfl
  | cons name rest inductionHypothesis =>
      have tail := inductionHypothesis (scope.define name)
      rw [count_define] at tail
      rw [List.length_cons]
      calc
        (scope.defineAll (name :: rest)).count =
            scope.count + 1 + rest.length := tail
        _ = scope.count + (rest.length + 1) := by omega

end Scope

/-- A plan writes the slots from a first one on up to a next one in order, and
reads slots below the next one to write. -/
inductive Plan.WritesSlots : (first next : Nat) → Plan → Prop
  | empty {slot : Nat} :
      WritesSlots slot slot .empty
  | write (slot : Nat) :
      WritesSlots slot (slot + 1) (.single ⟨.setGlobal, [slot]⟩)
  | read {slot next : Nat} (written : slot < next) :
      WritesSlots next next (.single ⟨.getGlobal, [slot]⟩)
  | other {slot : Nat} {instr : Instr}
      (noWrite : instr.opcode ≠ .setGlobal)
      (noRead : instr.opcode ≠ .getGlobal) :
      WritesSlots slot slot (.single instr)
  | seq {first second : Plan} {slot middle next : Nat}
      (firstWrites : WritesSlots slot middle first)
      (secondWrites : WritesSlots middle next second) :
      WritesSlots slot next (.seq first second)
  | choice {consequence alternative : Plan} {slot middle next : Nat}
      (consequenceWrites : WritesSlots slot middle consequence)
      (alternativeWrites : WritesSlots middle next alternative) :
      WritesSlots slot next (.choice consequence alternative)

namespace Plan.WritesSlots

/-- The slots that a plan writes are none of those before the first one. -/
theorem le
    {plan : Plan} {slot next : Nat} (writes : plan.WritesSlots slot next) :
    slot ≤ next := by
  induction writes with
  | empty | read | other =>
      exact Nat.le_refl _
  | write =>
      exact Nat.le_succ _
  | seq _ _ firstHypothesis secondHypothesis =>
      exact Nat.le_trans firstHypothesis secondHypothesis
  | choice _ _ consequenceHypothesis alternativeHypothesis =>
      exact Nat.le_trans consequenceHypothesis alternativeHypothesis

/-- The operation of a prefix operator uses no slot. -/
theorem unary (slot : Nat) (operator : String) :
    (Plan.ofOperator (unaryOpcode? operator)).WritesSlots slot slot := by
  cases found : unaryOpcode? operator with
  | none =>
      exact .empty
  | some opcode =>
      rcases unaryOpcode?_cases found with ⟨_, rfl⟩ | ⟨_, rfl⟩ <;>
        exact .other nofun nofun

/-- The operation of an infix operator uses no slot. -/
theorem binary (slot : Nat) (operator : String) :
    (Plan.ofOperator (binaryOpcode? operator)).WritesSlots slot slot := by
  cases found : binaryOpcode? operator with
  | none =>
      exact .empty
  | some opcode =>
      rcases binaryOpcode?_cases found with
        ⟨_, rfl⟩ | ⟨_, rfl⟩ | ⟨_, rfl⟩ | ⟨_, rfl⟩ | ⟨_, rfl⟩ | ⟨_, rfl⟩ |
          ⟨_, rfl⟩ <;>
        exact .other nofun nofun

end Plan.WritesSlots

mutual

/-- The plan of an accepted expression writes one slot for each definition. -/
theorem Expr.plan_writesSlots
    {offset : Nat} {numbering : Numbering} :
    (expression : Expr) →
      expression.firstError? offset numbering = none →
      numbering.scope.Bounded →
      (expression.plan numbering).WritesSlots numbering.scope.count
        (numbering.scope.count + expression.lets.length)
  | .ident name, accepted, bounded => by
      cases resolved : numbering.scope.resolve? name with
      | none =>
          simp [Expr.firstError?, nameError?, resolved] at accepted
      | some slot =>
          simp only [Expr.plan, resolved, Option.getD_some]
          exact .read (bounded name slot resolved)
  | .int _, _, _ => by
      exact .other nofun nofun
  | .bool true, _, _ | .bool false, _, _ => by
      exact .other nofun nofun
  | .str _, accepted, _ | .function _ _, accepted, _
  | .call _ _, accepted, _ => by
      cases accepted
  | .unary operator operand, accepted, bounded => by
      rw [Expr.firstError?, Option.or_eq_none_iff] at accepted
      exact .seq (operand.plan_writesSlots accepted.1 bounded)
        (.unary _ operator)
  | .binary left operator right, accepted, bounded => by
      by_cases isLess : operator = "<"
      · simp only [Expr.firstError?, if_pos isLess, Option.or_eq_none_iff]
          at accepted
        simp only [Expr.plan, Expr.lets, if_pos isLess, List.length_append,
          ← Nat.add_assoc]
        have leftWrites :=
          left.plan_writesSlots accepted.2 (bounded.defineAll right.lets)
        rw [Expr.advance, Numbering.advance, Scope.count_defineAll]
          at leftWrites
        exact .seq (right.plan_writesSlots accepted.1 bounded)
          (.seq leftWrites (.other nofun nofun))
      · simp only [Expr.firstError?, if_neg isLess, Option.or_eq_none_iff]
          at accepted
        simp only [Expr.plan, Expr.lets, if_neg isLess, List.length_append,
          ← Nat.add_assoc]
        have rightWrites :=
          right.plan_writesSlots accepted.2.1 (bounded.defineAll left.lets)
        rw [Expr.advance, Numbering.advance, Scope.count_defineAll]
          at rightWrites
        exact .seq (left.plan_writesSlots accepted.1 bounded)
          (.seq rightWrites (.binary _ operator))
  | .ifThen condition consequence, accepted, bounded => by
      simp only [Expr.firstError?, Option.or_eq_none_iff] at accepted
      have consequenceWrites :=
        planArm_writesSlots consequence accepted.2.1
          (bounded.defineAll condition.lets)
      rw [Expr.advance, Numbering.advance, Scope.count_defineAll]
        at consequenceWrites
      rw [Expr.lets, List.length_append, ← Nat.add_assoc]
      exact .seq (condition.plan_writesSlots accepted.1 bounded)
        (.choice consequenceWrites (.other nofun nofun))
  | .ifElse condition consequence alternative, accepted, bounded => by
      simp only [Expr.firstError?, Option.or_eq_none_iff] at accepted
      have consequenceWrites :=
        planArm_writesSlots consequence accepted.2.1
          (bounded.defineAll condition.lets)
      have alternativeWrites :=
        planArm_writesSlots alternative accepted.2.2.2.1
          ((bounded.defineAll condition.lets).defineAll
            (letsOfStatements consequence))
      simp only [Expr.advance, advanceStatements, Numbering.advance,
        Scope.count_defineAll] at consequenceWrites alternativeWrites
      simp only [Expr.lets, List.length_append, ← Nat.add_assoc]
      exact .seq (condition.plan_writesSlots accepted.1 bounded)
        (.choice consequenceWrites alternativeWrites)
termination_by structural expression => expression

/-- The plan of an accepted statement writes one slot for each definition. -/
theorem Stmt.plan_writesSlots
    {offset : Nat} {numbering : Numbering} :
    (statement : Stmt) →
      statement.firstError? offset numbering = none →
      numbering.scope.Bounded →
      (statement.plan numbering).WritesSlots numbering.scope.count
        (numbering.scope.count + statement.lets.length)
  | .define name value, accepted, bounded => by
      rw [Stmt.firstError?, Option.or_eq_none_iff] at accepted
      rw [Stmt.lets, List.length_append, List.length_singleton,
        ← Nat.add_assoc, Stmt.plan, Expr.advance, Numbering.advance,
        Scope.count_defineAll]
      exact .seq (value.plan_writesSlots accepted.1 bounded) (.write _)
  | .ret _, accepted, _ => by
      cases accepted
  | .expr value, accepted, bounded => by
      exact .seq (value.plan_writesSlots accepted bounded)
        (.other nofun nofun)
  | .block statements, accepted, bounded => by
      exact planStatements_writesSlots statements accepted bounded
termination_by structural statement => statement

/-- The plan of accepted statements writes one slot for each definition. -/
theorem planStatements_writesSlots
    {offset : Nat} {numbering : Numbering} :
    (statements : List Stmt) →
      firstErrorOfStatements? offset numbering statements = none →
      numbering.scope.Bounded →
      (planStatements numbering statements).WritesSlots numbering.scope.count
        (numbering.scope.count + (letsOfStatements statements).length)
  | [], _, _ => by
      exact .empty
  | statement :: rest, accepted, bounded => by
      simp only [firstErrorOfStatements?, Option.or_eq_none_iff] at accepted
      have restWrites :=
        planStatements_writesSlots rest accepted.2
          (bounded.defineAll statement.lets)
      rw [Stmt.advance, Numbering.advance, Scope.count_defineAll]
        at restWrites
      rw [letsOfStatements, List.length_append, ← Nat.add_assoc]
      exact .seq (statement.plan_writesSlots accepted.1 bounded) restWrites
termination_by structural statements => statements

/-- The same of a statement that ends an arm. -/
theorem Stmt.planTail_writesSlots
    {offset : Nat} {numbering : Numbering} :
    (statement : Stmt) →
      statement.firstError? offset numbering = none →
      numbering.scope.Bounded →
      (statement.planTail numbering).WritesSlots numbering.scope.count
        (numbering.scope.count + statement.lets.length)
  | .define name value, accepted, bounded => by
      rw [Stmt.firstError?, Option.or_eq_none_iff] at accepted
      rw [Stmt.lets, List.length_append, List.length_singleton,
        ← Nat.add_assoc, Stmt.planTail, Expr.advance, Numbering.advance,
        Scope.count_defineAll]
      exact .seq
        (.seq (value.plan_writesSlots accepted.1 bounded) (.write _))
        (.other nofun nofun)
  | .ret _, accepted, _ => by
      cases accepted
  | .expr value, accepted, bounded => by
      exact value.plan_writesSlots accepted bounded
  | .block statements, accepted, bounded => by
      exact planArm_writesSlots statements accepted bounded
termination_by structural statement => statement

/-- The plan of an accepted arm writes one slot for each definition. -/
theorem planArm_writesSlots
    {offset : Nat} {numbering : Numbering} :
    (statements : List Stmt) →
      firstErrorOfStatements? offset numbering statements = none →
      numbering.scope.Bounded →
      (planArm numbering statements).WritesSlots numbering.scope.count
        (numbering.scope.count + (letsOfStatements statements).length)
  | [], _, _ => by
      exact .other nofun nofun
  | statement :: rest, accepted, bounded => by
      simp only [firstErrorOfStatements?, Option.or_eq_none_iff] at accepted
      rw [planArm, letsOfStatements, List.length_append, ← Nat.add_assoc]
      split
      case isTrue restEmpty =>
        rw [(nothing_of_allEmpty rest restEmpty).1]
        exact statement.planTail_writesSlots accepted.1 bounded
      case isFalse =>
        have restWrites :=
          planArm_writesSlots rest accepted.2
            (bounded.defineAll statement.lets)
        rw [Stmt.advance, Numbering.advance, Scope.count_defineAll]
          at restWrites
        exact .seq (statement.plan_writesSlots accepted.1 bounded) restWrites
termination_by structural statements => statements

end

end StackLang
