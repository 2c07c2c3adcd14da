import StackLang.Proofs.Compilation.Plan

namespace StackLang

/-!
# Rejected programs

A program is rejected for the first fault that the traversal of its tree comes
across. The faults are read off the tree, the numbering and the offset at which
the code begins; no code is needed to find them.
-/

/-- The fault of an operand that is too large for its two bytes. -/
def operandError? (opcode : Opcode) (operand : Nat) : Option CompileError :=
  if operand ≤ maxOperand then
    none
  else
    some (.encode (.operandOutOfRange opcode operand 2))

/-- The fault of an operator that has no instruction. -/
def operatorError?
    (operator : String) (opcode? : Option Opcode) : Option CompileError :=
  match opcode? with
  | some _ =>
      none
  | none =>
      some (.unknownOperator operator)

/-- An operator that is accepted has an operation. -/
theorem exists_opcode_of_accepted
    {operator : String} {opcode? : Option Opcode}
    (accepted : operatorError? operator opcode? = none) :
    ∃ opcode, opcode? = some opcode := by
  cases opcode? with
  | none =>
      cases accepted
  | some opcode =>
      exact ⟨opcode, rfl⟩

/-- The prefix operators and their operations. -/
theorem unaryOpcode?_cases
    {operator : String} {opcode : Opcode}
    (found : unaryOpcode? operator = some opcode) :
    operator = "!" ∧ opcode = .bang ∨ operator = "-" ∧ opcode = .minus := by
  unfold unaryOpcode? at found
  split at found <;> cases found <;> simp

/-- The infix operators other than `<` and their operations. -/
theorem binaryOpcode?_cases
    {operator : String} {opcode : Opcode}
    (found : binaryOpcode? operator = some opcode) :
    operator = "+" ∧ opcode = .add ∨ operator = "-" ∧ opcode = .sub ∨
      operator = "*" ∧ opcode = .mul ∨ operator = "/" ∧ opcode = .div ∨
      operator = ">" ∧ opcode = .greaterThan ∨
      operator = "==" ∧ opcode = .equal ∨
      operator = "!=" ∧ opcode = .notEqual := by
  unfold binaryOpcode? at found
  split at found <;> cases found <;> simp

/-- The instruction of a prefix operator has no operands. -/
theorem operandWidths_of_unary
    {operator : String} (opcode : Opcode)
    (found : unaryOpcode? operator = some opcode) :
    opcode.operandWidths = [] := by
  rcases unaryOpcode?_cases found with ⟨_, rfl⟩ | ⟨_, rfl⟩ <;> rfl

/-- The instruction of an infix operator has no operands. -/
theorem operandWidths_of_binary
    {operator : String} (opcode : Opcode)
    (found : binaryOpcode? operator = some opcode) :
    opcode.operandWidths = [] := by
  rcases binaryOpcode?_cases found with
    ⟨_, rfl⟩ | ⟨_, rfl⟩ | ⟨_, rfl⟩ | ⟨_, rfl⟩ | ⟨_, rfl⟩ | ⟨_, rfl⟩ |
      ⟨_, rfl⟩ <;> rfl

/-- The fault of a literal that comes when the pool is full. -/
def literalError? (numbering : Numbering) : Option CompileError :=
  if maxOperand < numbering.pool then
    some (.constantPoolOverflow numbering.pool)
  else
    none

/-- The fault of a name that has no slot, or one beyond all operands. -/
def nameError? (numbering : Numbering) (name : String) : Option CompileError :=
  match numbering.scope.resolve? name with
  | some slot =>
      operandError? .getGlobal slot
  | none =>
      some (.undefinedVariable name)

/-- The fault of a definition that comes when all slots are taken. -/
def definitionError? (numbering : Numbering) : Option CompileError :=
  if maxOperand < numbering.scope.count then
    some (.tooManyGlobals numbering.scope.count)
  else
    none

mutual

/-- The first fault of an expression whose code begins at an offset. -/
def Expr.firstError? (offset : Nat) (numbering : Numbering) :
    Expr → Option CompileError
  | .ident name =>
      nameError? numbering name
  | .int _ =>
      literalError? numbering
  | .bool _ =>
      none
  | .str _ =>
      some (.unsupportedNode "string literal")
  | .unary operator operand =>
      (operand.firstError? offset numbering).or
        (operatorError? operator (unaryOpcode? operator))
  | .binary left operator right =>
      if operator = "<" then
        (right.firstError? offset numbering).or
          (left.firstError? (offset + (right.plan numbering).size)
            (right.advance numbering))
      else
        (left.firstError? offset numbering).or
          ((right.firstError? (offset + (left.plan numbering).size)
              (left.advance numbering)).or
            (operatorError? operator (binaryOpcode? operator)))
  | .ifThen condition consequence =>
      let start := offset + (condition.plan numbering).size + jumpSize
      let chosen := condition.advance numbering
      let alternativeStart :=
        start + (planArm chosen consequence).size + jumpSize
      (condition.firstError? offset numbering).or
        ((firstErrorOfStatements? start chosen consequence).or
          ((operandError? .jumpNotTruthy alternativeStart).or
            (operandError? .jump (alternativeStart + 1))))
  | .ifElse condition consequence alternative =>
      let start := offset + (condition.plan numbering).size + jumpSize
      let chosen := condition.advance numbering
      let alternativeStart :=
        start + (planArm chosen consequence).size + jumpSize
      let rejected := advanceStatements chosen consequence
      (condition.firstError? offset numbering).or
        ((firstErrorOfStatements? start chosen consequence).or
          ((operandError? .jumpNotTruthy alternativeStart).or
            ((firstErrorOfStatements? alternativeStart rejected
                alternative).or
              (operandError? .jump
                (alternativeStart + (planArm rejected alternative).size)))))
  | .function _ _ =>
      some (.unsupportedNode "function literal")
  | .call _ _ =>
      some (.unsupportedNode "call expression")

/-- The first fault of a statement whose code begins at an offset. -/
def Stmt.firstError? (offset : Nat) (numbering : Numbering) :
    Stmt → Option CompileError
  | .define _ value =>
      (value.firstError? offset numbering).or
        (definitionError? (value.advance numbering))
  | .ret _ =>
      some (.unsupportedNode "return statement")
  | .expr value =>
      value.firstError? offset numbering
  | .block statements =>
      firstErrorOfStatements? offset numbering statements

/-- The first fault of statements whose code begins at an offset. -/
def firstErrorOfStatements? (offset : Nat) (numbering : Numbering) :
    List Stmt → Option CompileError
  | [] =>
      none
  | statement :: rest =>
      (statement.firstError? offset numbering).or
        (firstErrorOfStatements?
          (offset + (statement.plan numbering).size)
          (statement.advance numbering) rest)

end

/-- Statements in two parts are accepted when both parts are. -/
theorem firstErrorOfStatements?_append_eq_none_iff
    {offset : Nat} {numbering : Numbering} {first second : List Stmt} :
    firstErrorOfStatements? offset numbering (first ++ second) = none ↔
      firstErrorOfStatements? offset numbering first = none ∧
        firstErrorOfStatements?
          (offset + (planStatements numbering first).size)
          (advanceStatements numbering first) second = none := by
  induction first generalizing offset numbering with
  | nil =>
      simp [firstErrorOfStatements?, planStatements, Plan.size,
        advanceStatements, letsOfStatements, literalsOfStatements]
  | cons statement rest inductionHypothesis =>
      simp [firstErrorOfStatements?, planStatements, Plan.size,
        advanceStatements, letsOfStatements, literalsOfStatements,
        Numbering.advance_append, inductionHypothesis, Stmt.advance,
        Nat.add_assoc, and_assoc]

theorem operandError?_eq_none_iff {opcode : Opcode} {operand : Nat} :
    operandError? opcode operand = none ↔ operand ≤ maxOperand := by
  simp [operandError?]

mutual

/-- An expression that is accepted at an offset is accepted before it. -/
theorem Expr.accepted_before
    {offset nearer : Nat} {numbering : Numbering} (before : nearer ≤ offset) :
    (expression : Expr) →
      expression.firstError? offset numbering = none →
      expression.firstError? nearer numbering = none
  | .ident _, accepted | .int _, accepted | .bool _, accepted => by
      exact accepted
  | .str _, accepted | .function _ _, accepted | .call _ _, accepted => by
      cases accepted
  | .unary operator operand, accepted => by
      rw [Expr.firstError?, Option.or_eq_none_iff] at accepted ⊢
      exact ⟨operand.accepted_before before accepted.1, accepted.2⟩
  | .binary left operator right, accepted => by
      by_cases isLess : operator = "<"
      · simp only [Expr.firstError?, if_pos isLess, Option.or_eq_none_iff]
          at accepted ⊢
        exact ⟨right.accepted_before before accepted.1,
          left.accepted_before (Nat.add_le_add_right before _) accepted.2⟩
      · simp only [Expr.firstError?, if_neg isLess, Option.or_eq_none_iff]
          at accepted ⊢
        exact ⟨left.accepted_before before accepted.1,
          right.accepted_before (Nat.add_le_add_right before _) accepted.2.1,
          accepted.2.2⟩
  | .ifThen condition consequence, accepted => by
      simp only [Expr.firstError?, Option.or_eq_none_iff,
        operandError?_eq_none_iff] at accepted ⊢
      refine ⟨condition.accepted_before before accepted.1,
        statements_accepted_before (by omega) consequence accepted.2.1, ?_, ?_⟩
      · omega
      · omega
  | .ifElse condition consequence alternative, accepted => by
      simp only [Expr.firstError?, Option.or_eq_none_iff,
        operandError?_eq_none_iff] at accepted ⊢
      refine ⟨condition.accepted_before before accepted.1,
        statements_accepted_before (by omega) consequence accepted.2.1, ?_,
        statements_accepted_before (by omega) alternative accepted.2.2.2.1,
        ?_⟩
      · omega
      · omega
termination_by structural expression => expression

/-- A statement that is accepted at an offset is accepted before it. -/
theorem Stmt.accepted_before
    {offset nearer : Nat} {numbering : Numbering} (before : nearer ≤ offset) :
    (statement : Stmt) →
      statement.firstError? offset numbering = none →
      statement.firstError? nearer numbering = none
  | .define _ value, accepted => by
      rw [Stmt.firstError?, Option.or_eq_none_iff] at accepted ⊢
      exact ⟨value.accepted_before before accepted.1, accepted.2⟩
  | .ret _, accepted => by
      cases accepted
  | .expr value, accepted => by
      exact value.accepted_before before accepted
  | .block statements, accepted => by
      exact statements_accepted_before before statements accepted
termination_by structural statement => statement

/-- Statements that are accepted at an offset are accepted before it. -/
theorem statements_accepted_before
    {offset nearer : Nat} {numbering : Numbering} (before : nearer ≤ offset) :
    (statements : List Stmt) →
      firstErrorOfStatements? offset numbering statements = none →
      firstErrorOfStatements? nearer numbering statements = none
  | [], accepted => by
      exact accepted
  | statement :: rest, accepted => by
      rw [firstErrorOfStatements?, Option.or_eq_none_iff] at accepted ⊢
      exact ⟨statement.accepted_before before accepted.1,
        statements_accepted_before (Nat.add_le_add_right before _) rest
          accepted.2⟩
termination_by structural statements => statements

end

end StackLang
