import StackLang.Proofs.Compilation.Rejection

namespace StackLang

/-!
# Demands of a program

Generating the code of a program makes demands in the order of the traversal: an
operator needs an instruction, a literal a place in the pool, a name a slot, and
a jump a target that can be written. The demands are read off the tree, each
with the offset of the instruction that it is made for.

The offsets are sums of sizes, and the size of a piece of code depends on
nothing but its tree.
-/

/-- The number of bytes of an instruction without operands. -/
def bareSize : Nat :=
  1

/-- The number of bytes of an instruction with one operand. -/
def wideSize : Nat :=
  3

mutual

/-- The number of bytes of an expression's code. -/
def Expr.byteSize : Expr → Nat
  | .ident _ | .int _ =>
      wideSize
  | .bool _ =>
      bareSize
  | .unary _ operand =>
      operand.byteSize + bareSize
  | .binary left _ right =>
      left.byteSize + right.byteSize + bareSize
  | .ifThen condition consequence =>
      condition.byteSize + jumpSize + byteSizeOfArm consequence + jumpSize +
        bareSize
  | .ifElse condition consequence alternative =>
      condition.byteSize + jumpSize + byteSizeOfArm consequence + jumpSize +
        byteSizeOfArm alternative
  | .str _ | .function _ _ | .call _ _ =>
      0

/-- The number of bytes of a statement's code. -/
def Stmt.byteSize : Stmt → Nat
  | .define _ value =>
      value.byteSize + wideSize
  | .ret _ =>
      0
  | .expr value =>
      value.byteSize + bareSize
  | .block statements =>
      byteSizeOfStatements statements

/-- The number of bytes of the code of statements. -/
def byteSizeOfStatements : List Stmt → Nat
  | [] =>
      0
  | statement :: rest =>
      statement.byteSize + byteSizeOfStatements rest

/-- The number of bytes of a statement's code at the end of an arm, where an
expression is not discarded and a definition is followed by null. -/
def Stmt.tailByteSize : Stmt → Nat
  | .define _ value =>
      value.byteSize + wideSize + bareSize
  | .ret _ =>
      0
  | .expr value =>
      value.byteSize
  | .block statements =>
      byteSizeOfArm statements

/-- The number of bytes of the code of an arm. -/
def byteSizeOfArm : List Stmt → Nat
  | [] =>
      bareSize
  | statement :: rest =>
      if allEmpty rest then
        statement.tailByteSize
      else
        statement.byteSize + byteSizeOfArm rest

end

/-- What code generation needs in order to go on. -/
inductive Need where
  /-- An implementation of a kind of node. There is none. -/
  | node (kind : String)
  /-- The instruction of a prefix operator. -/
  | unary (operator : String)
  /-- The instruction of an infix operator. -/
  | binary (operator : String)
  /-- A place in the pool for a literal. -/
  | literal (number : Int64)
  /-- The slot of a name that is read. -/
  | read (name : String)
  /-- A new slot for a name that is defined. -/
  | define (name : String)
  /-- A target that the operand of a jump can hold. -/
  | target (opcode : Opcode) (target : Nat)
  deriving DecidableEq

/-- A need, and the offset of the instruction that it is there for. -/
structure Demand where
  offset : Nat
  need : Need
  deriving DecidableEq

mutual

/-- The demands of an expression whose code begins at an offset. -/
def Expr.demands (offset : Nat) : Expr → List Demand
  | .ident name =>
      [⟨offset, .read name⟩]
  | .int number =>
      [⟨offset, .literal number⟩]
  | .bool _ =>
      []
  | .str _ =>
      [⟨offset, .node "string literal"⟩]
  | .unary operator operand =>
      operand.demands offset ++
        [⟨offset + operand.byteSize, .unary operator⟩]
  | .binary left operator right =>
      if operator = "<" then
        right.demands offset ++
          (left.demands (offset + right.byteSize) ++
            [⟨offset + right.byteSize + left.byteSize, .binary operator⟩])
      else
        left.demands offset ++
          (right.demands (offset + left.byteSize) ++
            [⟨offset + left.byteSize + right.byteSize, .binary operator⟩])
  | .ifThen condition consequence =>
      let toAlternative := offset + condition.byteSize
      let start := toAlternative + jumpSize
      let toEnd := start + byteSizeOfArm consequence
      let alternativeStart := toEnd + jumpSize
      condition.demands offset ++
        (demandsOfStatements start consequence ++
          [⟨toAlternative, .target .jumpNotTruthy alternativeStart⟩,
            ⟨toEnd, .target .jump (alternativeStart + bareSize)⟩])
  | .ifElse condition consequence alternative =>
      let toAlternative := offset + condition.byteSize
      let start := toAlternative + jumpSize
      let toEnd := start + byteSizeOfArm consequence
      let alternativeStart := toEnd + jumpSize
      condition.demands offset ++
        (demandsOfStatements start consequence ++
          ⟨toAlternative, .target .jumpNotTruthy alternativeStart⟩ ::
            (demandsOfStatements alternativeStart alternative ++
              [⟨toEnd,
                .target .jump
                  (alternativeStart + byteSizeOfArm alternative)⟩]))
  | .function _ _ =>
      [⟨offset, .node "function literal"⟩]
  | .call _ _ =>
      [⟨offset, .node "call expression"⟩]

/-- The demands of a statement whose code begins at an offset. -/
def Stmt.demands (offset : Nat) : Stmt → List Demand
  | .define name value =>
      value.demands offset ++ [⟨offset + value.byteSize, .define name⟩]
  | .ret _ =>
      [⟨offset, .node "return statement"⟩]
  | .expr value =>
      value.demands offset
  | .block statements =>
      demandsOfStatements offset statements

/-- The demands of statements whose code begins at an offset. -/
def demandsOfStatements (offset : Nat) : List Stmt → List Demand
  | [] =>
      []
  | statement :: rest =>
      statement.demands offset ++
        demandsOfStatements (offset + statement.byteSize) rest

end

mutual

/-- A statement without code demands nothing. -/
theorem Stmt.demands_of_isEmpty (offset : Nat) :
    (statement : Stmt) → statement.isEmpty = true →
      statement.demands offset = []
  | .define _ _, empty | .ret _, empty | .expr _, empty => by
      cases empty
  | .block statements, empty => by
      exact demands_of_allEmpty offset statements empty
termination_by structural statement => statement

/-- Statements without code demand nothing. -/
theorem demands_of_allEmpty (offset : Nat) :
    (statements : List Stmt) → allEmpty statements = true →
      demandsOfStatements offset statements = []
  | [], _ => by
      rfl
  | statement :: rest, empty => by
      rw [allEmpty, Bool.and_eq_true] at empty
      rw [demandsOfStatements, statement.demands_of_isEmpty offset empty.1,
        demands_of_allEmpty _ rest empty.2]
      rfl
termination_by structural statements => statements

end

/-- The demands of a program whose code begins at offset zero. -/
def Program.demands (program : Program) : List Demand :=
  demandsOfStatements 0 program

/-- The literal that is to be pooled, if there is one. -/
def Demand.literal? (demand : Demand) : Option Int64 :=
  match demand.need with
  | .literal number =>
      some number
  | _ =>
      none

/-- The name that is to be defined, if there is one. -/
def Demand.defined? (demand : Demand) : Option String :=
  match demand.need with
  | .define name =>
      some name
  | _ =>
      none

/-- The literals that demands pool, in their order. -/
def literalsOfDemands (demands : List Demand) : List Int64 :=
  demands.filterMap Demand.literal?

/-- The names that demands define, in their order. -/
def letsOfDemands (demands : List Demand) : List String :=
  demands.filterMap Demand.defined?

@[simp] theorem literalsOfDemands_append (first second : List Demand) :
    literalsOfDemands (first ++ second) =
      literalsOfDemands first ++ literalsOfDemands second :=
  List.filterMap_append

@[simp] theorem letsOfDemands_append (first second : List Demand) :
    letsOfDemands (first ++ second) =
      letsOfDemands first ++ letsOfDemands second :=
  List.filterMap_append

@[simp] theorem literalsOfDemands_nil : literalsOfDemands [] = [] :=
  rfl

@[simp] theorem letsOfDemands_nil : letsOfDemands [] = [] :=
  rfl

/-- Of the needs, literals alone are pooled. -/
@[simp] theorem literalsOfDemands_cons
    (offset : Nat) (need : Need) (rest : List Demand) :
    literalsOfDemands (⟨offset, need⟩ :: rest) =
      match need with
      | .literal number =>
          number :: literalsOfDemands rest
      | _ =>
          literalsOfDemands rest := by
  cases need <;> rfl

/-- Of the needs, definitions alone define names. -/
@[simp] theorem letsOfDemands_cons
    (offset : Nat) (need : Need) (rest : List Demand) :
    letsOfDemands (⟨offset, need⟩ :: rest) =
      match need with
      | .define name =>
          name :: letsOfDemands rest
      | _ =>
          letsOfDemands rest := by
  cases need <;> rfl

theorem Demand.defined?_eq_some_iff {demand : Demand} {name : String} :
    demand.defined? = some name ↔ demand.need = .define name := by
  rcases demand with ⟨offset, need⟩
  cases need <;> simp [defined?]

/-- The names that demands define are those of their definitions. -/
theorem mem_letsOfDemands {demands : List Demand} {name : String} :
    name ∈ letsOfDemands demands ↔
      ∃ demand ∈ demands, demand.need = .define name := by
  simp only [letsOfDemands, List.mem_filterMap, Demand.defined?_eq_some_iff]

mutual

/-- The demands of an expression pool its literals and define its names. -/
theorem Expr.lists_of_demands (offset : Nat) :
    (expression : Expr) →
      literalsOfDemands (expression.demands offset) = expression.literals ∧
        letsOfDemands (expression.demands offset) = expression.lets
  | .ident _ | .int _ | .bool _ | .str _ | .function _ _ | .call _ _ => by
      exact ⟨rfl, rfl⟩
  | .unary operator operand => by
      have inside := operand.lists_of_demands offset
      simp [Expr.demands, Expr.literals, Expr.lets, inside]
  | .binary left operator right => by
      by_cases isLess : operator = "<"
      · have first := right.lists_of_demands offset
        have second := left.lists_of_demands (offset + right.byteSize)
        simp [Expr.demands, Expr.literals, Expr.lets, isLess, first, second]
      · have first := left.lists_of_demands offset
        have second := right.lists_of_demands (offset + left.byteSize)
        simp [Expr.demands, Expr.literals, Expr.lets, isLess, first, second]
  | .ifThen condition consequence => by
      have first := condition.lists_of_demands offset
      have second :=
        lists_of_demandsOfStatements
          (offset + condition.byteSize + jumpSize) consequence
      simp [Expr.demands, Expr.literals, Expr.lets, first, second]
  | .ifElse condition consequence alternative => by
      have first := condition.lists_of_demands offset
      have second :=
        lists_of_demandsOfStatements
          (offset + condition.byteSize + jumpSize) consequence
      have third :=
        lists_of_demandsOfStatements
          (offset + condition.byteSize + jumpSize +
            byteSizeOfArm consequence + jumpSize)
          alternative
      simp [Expr.demands, Expr.literals, Expr.lets, first, second, third]
termination_by structural expression => expression

/-- The demands of a statement pool its literals and define its names. -/
theorem Stmt.lists_of_demands (offset : Nat) :
    (statement : Stmt) →
      literalsOfDemands (statement.demands offset) = statement.literals ∧
        letsOfDemands (statement.demands offset) = statement.lets
  | .define name value => by
      have inside := value.lists_of_demands offset
      simp [Stmt.demands, Stmt.literals, Stmt.lets, inside]
  | .ret _ => by
      exact ⟨rfl, rfl⟩
  | .expr value => by
      exact value.lists_of_demands offset
  | .block statements => by
      exact lists_of_demandsOfStatements offset statements
termination_by structural statement => statement

/-- The demands of statements pool their literals and define their names. -/
theorem lists_of_demandsOfStatements (offset : Nat) :
    (statements : List Stmt) →
      literalsOfDemands (demandsOfStatements offset statements) =
          literalsOfStatements statements ∧
        letsOfDemands (demandsOfStatements offset statements) =
          letsOfStatements statements
  | [] => by
      exact ⟨rfl, rfl⟩
  | statement :: rest => by
      have first := statement.lists_of_demands offset
      have others :=
        lists_of_demandsOfStatements (offset + statement.byteSize) rest
      simp [demandsOfStatements, literalsOfStatements, letsOfStatements,
        first, others]
termination_by structural statements => statements

end

/-- The code of an operator is one instruction without operands. -/
theorem Plan.size_ofOperator
    {operator : String} {opcode? : Option Opcode}
    (accepted : operatorError? operator opcode? = none)
    (bare : ∀ opcode, opcode? = some opcode → opcode.operandWidths = []) :
    (Plan.ofOperator opcode?).size = bareSize := by
  obtain ⟨opcode, rfl⟩ := exists_opcode_of_accepted accepted
  simp [ofOperator, size, Instr.size, Opcode.layout, Layout.operandSize,
    bare opcode rfl, bareSize]

mutual

/-- The code of an accepted expression has the size of the expression. -/
theorem Expr.size_plan {offset : Nat} {numbering : Numbering} :
    (expression : Expr) →
      expression.firstError? offset numbering = none →
      (expression.plan numbering).size = expression.byteSize
  | .ident _, _ | .int _, _ | .bool true, _ | .bool false, _ => by
      rfl
  | .str _, accepted | .function _ _, accepted | .call _ _, accepted => by
      cases accepted
  | .unary operator operand, accepted => by
      rw [Expr.firstError?, Option.or_eq_none_iff] at accepted
      rw [Expr.plan, Plan.size, operand.size_plan accepted.1,
        Plan.size_ofOperator accepted.2 operandWidths_of_unary,
        Expr.byteSize]
  | .binary left operator right, accepted => by
      by_cases isLess : operator = "<"
      · simp only [Expr.firstError?, if_pos isLess, Option.or_eq_none_iff]
          at accepted
        have first := right.size_plan accepted.1
        have second := left.size_plan accepted.2
        simp only [Expr.plan, if_pos isLess, Plan.size, first, second,
          Expr.byteSize, Nat.add_left_comm, Nat.add_assoc]
        rfl
      · simp only [Expr.firstError?, if_neg isLess, Option.or_eq_none_iff]
          at accepted
        have first := left.size_plan accepted.1
        have second := right.size_plan accepted.2.1
        have operation :=
          Plan.size_ofOperator accepted.2.2 operandWidths_of_binary
        simp only [Expr.plan, if_neg isLess, Plan.size, first, second,
          operation, Expr.byteSize, Nat.add_assoc]
  | .ifThen condition consequence, accepted => by
      simp only [Expr.firstError?, Option.or_eq_none_iff] at accepted
      have first := condition.size_plan accepted.1
      have second := size_planArm consequence accepted.2.1
      simp only [Expr.plan, Plan.size, first, second, Expr.byteSize,
        Nat.add_assoc]
      rfl
  | .ifElse condition consequence alternative, accepted => by
      simp only [Expr.firstError?, Option.or_eq_none_iff] at accepted
      have first := condition.size_plan accepted.1
      have second := size_planArm consequence accepted.2.1
      have third := size_planArm alternative accepted.2.2.2.1
      simp only [Expr.plan, Plan.size, first, second, third, Expr.byteSize,
        Nat.add_assoc]
termination_by structural expression => expression

/-- The code of an accepted statement has the size of the statement. -/
theorem Stmt.size_plan {offset : Nat} {numbering : Numbering} :
    (statement : Stmt) →
      statement.firstError? offset numbering = none →
      (statement.plan numbering).size = statement.byteSize
  | .define name value, accepted => by
      rw [Stmt.firstError?, Option.or_eq_none_iff] at accepted
      rw [Stmt.plan, Plan.size, value.size_plan accepted.1]
      rfl
  | .ret _, accepted => by
      cases accepted
  | .expr value, accepted => by
      rw [Stmt.plan, Plan.size, value.size_plan accepted]
      rfl
  | .block statements, accepted => by
      exact size_planStatements statements accepted
termination_by structural statement => statement

/-- The code of accepted statements has the size of the statements. -/
theorem size_planStatements {offset : Nat} {numbering : Numbering} :
    (statements : List Stmt) →
      firstErrorOfStatements? offset numbering statements = none →
      (planStatements numbering statements).size =
        byteSizeOfStatements statements
  | [], _ => by
      rfl
  | statement :: rest, accepted => by
      rw [firstErrorOfStatements?, Option.or_eq_none_iff] at accepted
      rw [planStatements, Plan.size, statement.size_plan accepted.1,
        size_planStatements rest accepted.2, byteSizeOfStatements]
termination_by structural statements => statements

/-- The code of an accepted statement that ends an arm has the size of the
statement at the end of an arm. -/
theorem Stmt.size_planTail {offset : Nat} {numbering : Numbering} :
    (statement : Stmt) →
      statement.firstError? offset numbering = none →
      (statement.planTail numbering).size = statement.tailByteSize
  | .define name value, accepted => by
      rw [Stmt.firstError?, Option.or_eq_none_iff] at accepted
      simp only [Stmt.planTail, Plan.size, value.size_plan accepted.1]
      rfl
  | .ret _, accepted => by
      cases accepted
  | .expr value, accepted => by
      exact value.size_plan accepted
  | .block statements, accepted => by
      exact size_planArm statements accepted
termination_by structural statement => statement

/-- The code of an accepted arm has the size of the arm. -/
theorem size_planArm {offset : Nat} {numbering : Numbering} :
    (statements : List Stmt) →
      firstErrorOfStatements? offset numbering statements = none →
      (planArm numbering statements).size = byteSizeOfArm statements
  | [], _ => by
      rfl
  | statement :: rest, accepted => by
      rw [firstErrorOfStatements?, Option.or_eq_none_iff] at accepted
      rw [planArm, byteSizeOfArm]
      split
      case isTrue =>
        exact statement.size_planTail accepted.1
      case isFalse =>
        rw [Plan.size, statement.size_plan accepted.1,
          size_planArm rest accepted.2]
termination_by structural statements => statements

end

end StackLang
