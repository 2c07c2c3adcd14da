import Mathlib.Logic.Equiv.Basic
import StackLang.Proofs.Compilation.Acceptance

namespace StackLang

open CompileM

/-!
# Names are interchangeable

A compilation only asks whether two names are the same. If the names of a
program are replaced, different ones by different ones, then the code and the
constants stay as they are, and so does a fault, but for the name in it.

Two compilations that differ by such a replacement have the same code and the
same pool at any time, and scopes that give each name and its replacement the
same slot.
-/

mutual

/-- The expression with its names replaced. The parameters of a function are not
names of the scope, and are kept. -/
def Expr.rename (replace : String → String) : Expr → Expr
  | .ident name =>
      .ident (replace name)
  | .int number =>
      .int number
  | .bool truth =>
      .bool truth
  | .str text =>
      .str text
  | .unary operator operand =>
      .unary operator (operand.rename replace)
  | .binary left operator right =>
      .binary (left.rename replace) operator (right.rename replace)
  | .ifThen condition consequence =>
      .ifThen (condition.rename replace) (renameStatements replace consequence)
  | .ifElse condition consequence alternative =>
      .ifElse (condition.rename replace)
        (renameStatements replace consequence)
        (renameStatements replace alternative)
  | .function parameters body =>
      .function parameters (renameStatements replace body)
  | .call callee arguments =>
      .call (callee.rename replace) (renameArguments replace arguments)

/-- The statement with its names replaced. -/
def Stmt.rename (replace : String → String) : Stmt → Stmt
  | .define name value =>
      .define (replace name) (value.rename replace)
  | .ret value =>
      .ret (value.rename replace)
  | .expr value =>
      .expr (value.rename replace)
  | .block statements =>
      .block (renameStatements replace statements)

/-- Statements with their names replaced. -/
def renameStatements (replace : String → String) : List Stmt → List Stmt
  | [] =>
      []
  | statement :: rest =>
      statement.rename replace :: renameStatements replace rest

/-- Arguments with their names replaced. -/
def renameArguments (replace : String → String) : List Expr → List Expr
  | [] =>
      []
  | argument :: rest =>
      argument.rename replace :: renameArguments replace rest

end

/-- The program with its names replaced. -/
def Program.rename (replace : String → String) (program : Program) : Program :=
  renameStatements replace program

/-- The error with the name in it replaced. -/
def CompileError.rename (replace : String → String) :
    CompileError → CompileError
  | .undefinedVariable name =>
      .undefinedVariable (replace name)
  | other =>
      other

/-- A scope knows the replacement of each name as another one knows the name. -/
structure Scope.Renamed
    (replace : String → String) (scope renamed : Scope) : Prop where
  count : renamed.count = scope.count
  resolve? :
    ∀ name, renamed.resolve? (replace name) = scope.resolve? name

/-- Defining a name here and its replacement there keeps the scopes alike. -/
theorem Scope.Renamed.define
    {replace : String → String} {scope renamed : Scope}
    (injective : Function.Injective replace)
    (alike : scope.Renamed replace renamed) (name : String) :
    (scope.define name).Renamed replace (renamed.define (replace name)) where
  count := congrArg (· + 1) alike.count
  resolve? other := by
    rw [resolve?_define, resolve?_define, alike.count, alike.resolve?]
    simp only [injective.eq_iff]

/-- Two compilations differ in their names only. -/
structure Compilation.Renamed
    (replace : String → String) (original renamed : Compilation) : Prop where
  assembler : renamed.assembler = original.assembler
  constants : renamed.constants = original.constants
  scope : original.scope.Renamed replace renamed.scope

/-- Before anything is compiled there are no names. -/
theorem Compilation.start_renamed (replace : String → String) :
    Compilation.start.Renamed replace Compilation.start := by
  refine ⟨rfl, rfl, rfl, fun name => ?_⟩
  simp [start, resume]

/-- Two results differ in their names only. -/
inductive SameButNames {α : Type} (replace : String → String) :
    EStateM.Result CompileError Compilation α →
      EStateM.Result CompileError Compilation α → Prop
  | ok {value : α} {after renamed : Compilation}
      (alike : after.Renamed replace renamed) :
      SameButNames replace (.ok value after) (.ok value renamed)
  | error {error : CompileError} {after renamed : Compilation}
      (alike : after.Renamed replace renamed) :
      SameButNames replace (.error error after)
        (.error (error.rename replace) renamed)

/-- On compilations that differ in their names only, two steps have results that
differ in nothing else. -/
def ActsAlike {α : Type}
    (replace : String → String) (step other : CompileM α) : Prop :=
  ∀ before renamed, before.Renamed replace renamed →
    SameButNames replace (step before) (other renamed)

namespace ActsAlike

variable {α β : Type} {replace : String → String}

theorem pure (value : α) :
    ActsAlike replace (Pure.pure value) (Pure.pure value) := by
  intro before renamed alike
  exact .ok alike

/-- The same fault, with its name replaced. -/
theorem throw (error : CompileError) :
    ActsAlike (α := α) replace (throw error) (throw (error.rename replace)) := by
  intro before renamed alike
  exact .error alike

/-- Steps that act alike do so one after the other. -/
theorem bind
    {step other : CompileM α} {next otherNext : α → CompileM β}
    (alike : ActsAlike replace step other)
    (nextAlike : ∀ value, ActsAlike replace (next value) (otherNext value)) :
    ActsAlike replace (step >>= next) (other >>= otherNext) := by
  intro before renamed sameBefore
  have same := alike before renamed sameBefore
  simp only [Bind.bind, EStateM.bind]
  generalize step before = result, other renamed = otherResult at same ⊢
  cases same with
  | ok sameAfter =>
      exact nextAlike _ _ _ sameAfter
  | error sameAfter =>
      exact .error sameAfter

/-- The code in the making may be changed in the same way. -/
theorem modifyAssembler (change : Assembler → Assembler) :
    ActsAlike replace (CompileM.modifyAssembler change)
      (CompileM.modifyAssembler change) := by
  intro before renamed alike
  exact .ok ⟨congrArg change alike.assembler, alike.constants, alike.scope⟩

theorem here : ActsAlike replace CompileM.here CompileM.here := by
  intro before renamed alike
  rw [CompileM.here, bind_get, bind_get, alike.assembler]
  exact .ok alike

theorem emit (opcode : Opcode) (operands : List Nat) :
    ActsAlike replace (CompileM.emit opcode operands)
      (CompileM.emit opcode operands) := by
  rw [CompileM.emit]
  cases (Instr.mk opcode operands).encode with
  | error error =>
      exact throw (.encode error)
  | ok encoded =>
      exact modifyAssembler _

theorem patch (offset operand : Nat) :
    ActsAlike replace (CompileM.patch offset operand)
      (CompileM.patch offset operand) := by
  refine (modifyAssembler _).bind fun _ => ?_
  intro before renamed alike
  rw [bind_get, bind_get, alike.assembler]
  cases before.assembler.code.patchedBytes offset operand with
  | error error =>
      exact throw (.encode error) before renamed alike
  | ok encoded =>
      exact modifyAssembler _ before renamed alike

theorem addConstant (value : Value) :
    ActsAlike replace (CompileM.addConstant value)
      (CompileM.addConstant value) := by
  intro before renamed alike
  simp only [CompileM.addConstant, bind_get, alike.constants]
  by_cases full : maxOperand < before.constants.size
  · simp only [if_pos full]
    exact .error alike
  · simp only [if_neg full]
    exact .ok ⟨alike.assembler,
      congrArg (Array.push · value) alike.constants, alike.scope⟩

/-- A name and its replacement have the same slot, or are both undefined. -/
theorem resolve (name : String) :
    ActsAlike replace (CompileM.resolve name)
      (CompileM.resolve (replace name)) := by
  intro before renamed alike
  simp only [CompileM.resolve, bind_get, alike.scope.resolve?]
  cases before.scope.resolve? name with
  | none =>
      exact .error alike
  | some slot =>
      exact .ok alike

/-- A name and its replacement are defined with the same slot. -/
theorem define (injective : Function.Injective replace) (name : String) :
    ActsAlike replace (CompileM.define name)
      (CompileM.define (replace name)) := by
  intro before renamed alike
  simp only [CompileM.define, bind_get, alike.scope.count]
  by_cases full : maxOperand < before.scope.count
  · simp only [if_pos full]
    exact .error alike
  · simp only [if_neg full]
    exact .ok ⟨alike.assembler, alike.constants,
      alike.scope.define injective name⟩

theorem keepValue : ActsAlike replace CompileM.keepValue CompileM.keepValue := by
  intro before renamed alike
  rw [CompileM.keepValue, bind_get, bind_get, alike.assembler]
  split
  case isTrue =>
    exact modifyAssembler _ before renamed alike
  case isFalse =>
    exact emit _ _ before renamed alike

theorem emitOperator (operator : String) (opcode? : Option Opcode) :
    ActsAlike replace (StackLang.emitOperator operator opcode?)
      (StackLang.emitOperator operator opcode?) := by
  cases opcode? with
  | none =>
      exact throw (.unknownOperator operator)
  | some opcode =>
      exact emit opcode []

theorem emitBlock {statements others : CompileM PUnit}
    (alike : ActsAlike replace statements others) :
    ActsAlike replace (StackLang.emitBlock statements)
      (StackLang.emitBlock others) :=
  alike.bind fun _ => keepValue

theorem emitChoice
    {condition consequence alternative : CompileM PUnit}
    {otherCondition otherConsequence otherAlternative : CompileM PUnit}
    (conditionAlike : ActsAlike replace condition otherCondition)
    (consequenceAlike : ActsAlike replace consequence otherConsequence)
    (alternativeAlike : ActsAlike replace alternative otherAlternative) :
    ActsAlike replace
      (StackLang.emitChoice condition consequence alternative)
      (StackLang.emitChoice otherCondition otherConsequence
        otherAlternative) :=
  conditionAlike.bind fun _ =>
    here.bind fun toAlternative =>
      (emit _ _).bind fun _ =>
        consequenceAlike.bind fun _ =>
          here.bind fun toEnd =>
            (emit _ _).bind fun _ =>
              here.bind fun alternativeOffset =>
                (patch toAlternative alternativeOffset).bind fun _ =>
                  alternativeAlike.bind fun _ =>
                    here.bind fun endOffset =>
                      patch toEnd endOffset

end ActsAlike

mutual

/-- The code of an expression does not depend on its names. -/
theorem Expr.generate_rename
    {replace : String → String} (injective : Function.Injective replace) :
    (expression : Expr) →
      ActsAlike replace expression.generate
        (expression.rename replace).generate
  | .ident name => by
      exact (ActsAlike.resolve name).bind fun slot => .emit _ _
  | .int number => by
      exact (ActsAlike.addConstant _).bind fun index => .emit _ _
  | .bool true | .bool false => by
      exact .emit _ _
  | .str _ | .function _ _ | .call _ _ => by
      exact .throw (.unsupportedNode _)
  | .unary operator operand => by
      exact (operand.generate_rename injective).bind fun _ =>
        .emitOperator _ _
  | .binary left operator right => by
      rw [Expr.rename, Expr.generate, Expr.generate]
      split
      case isTrue =>
        exact (right.generate_rename injective).bind fun _ =>
          (left.generate_rename injective).bind fun _ => .emit _ _
      case isFalse =>
        exact (left.generate_rename injective).bind fun _ =>
          (right.generate_rename injective).bind fun _ =>
            .emitOperator _ _
  | .ifThen condition consequence => by
      exact .emitChoice (condition.generate_rename injective)
        (.emitBlock (generateStatements_rename injective consequence))
        (.emit _ _)
  | .ifElse condition consequence alternative => by
      exact .emitChoice (condition.generate_rename injective)
        (.emitBlock (generateStatements_rename injective consequence))
        (.emitBlock (generateStatements_rename injective alternative))
termination_by structural expression => expression

/-- The code of a statement does not depend on its names. -/
theorem Stmt.generate_rename
    {replace : String → String} (injective : Function.Injective replace) :
    (statement : Stmt) →
      ActsAlike replace statement.generate (statement.rename replace).generate
  | .define name value => by
      exact (value.generate_rename injective).bind fun _ =>
        (ActsAlike.define injective name).bind fun slot => .emit _ _
  | .ret _ => by
      exact .throw (.unsupportedNode _)
  | .expr value => by
      exact (value.generate_rename injective).bind fun _ => .emit _ _
  | .block statements => by
      exact generateStatements_rename injective statements
termination_by structural statement => statement

/-- The code of statements does not depend on their names. -/
theorem generateStatements_rename
    {replace : String → String} (injective : Function.Injective replace) :
    (statements : List Stmt) →
      ActsAlike replace (generateStatements statements)
        (generateStatements (renameStatements replace statements))
  | [] => by
      exact .pure _
  | statement :: rest => by
      exact (statement.generate_rename injective).bind fun _ =>
        generateStatements_rename injective rest
termination_by structural statements => statements

end

/-- Replacing names, different ones by different ones, changes nothing that is
compiled: the code and the constants are the same, or the fault is, with its name
replaced. -/
theorem compile_rename
    {replace : String → String} (injective : Function.Injective replace)
    (program : Program) :
    compile (program.rename replace) =
      (compile program).mapError (CompileError.rename replace) := by
  have same :
      SameButNames replace (program.generate .start)
        ((program.rename replace).generate .start) :=
    generateStatements_rename injective program _ _
      (Compilation.start_renamed replace)
  rw [compile, compile, EStateM.run, EStateM.run]
  generalize program.generate .start = result,
    (program.rename replace).generate .start = renamedResult at same ⊢
  cases same with
  | @ok _ after renamed alike =>
      have sameBytecode : renamed.bytecode = after.bytecode := by
        rw [Compilation.bytecode, Compilation.bytecode, alike.assembler,
          alike.constants]
      exact congrArg Except.ok sameBytecode
  | error _ =>
      rfl

/-- A name that is read, defined again, and read again. -/
def rebinding : Program :=
  [.define "a" (.int 1), .define "b" (.ident "a"), .define "a" (.int 2),
    .expr (.binary (.ident "a") "-" (.ident "b"))]

/-- Two names are exchanged, in a program that is compiled and in one that is
rejected. -/
theorem compile_rename_exchanged :
    Function.Injective (Equiv.swap "a" "b") ∧
      (∃ bytecode,
        compile rebinding = .ok bytecode ∧
          compile
              [.define "b" (.int 1), .define "a" (.ident "b"),
                .define "b" (.int 2),
                .expr (.binary (.ident "b") "-" (.ident "a"))] =
            .ok bytecode) ∧
      compile [.define "a" (.ident "b")] =
          .error (.undefinedVariable "b") ∧
        compile [.define "b" (.ident "a")] =
          .error (.undefinedVariable "a") := by
  have injective : Function.Injective (Equiv.swap "a" "b") :=
    (Equiv.swap "a" "b").injective
  refine ⟨injective, ?accepted, ?rejected⟩
  case accepted =>
    obtain ⟨bytecode, succeeded⟩ :=
      exists_compile_eq_ok_iff.mpr
        (@Program.firstError?_eq rebinding |>.trans rfl)
    have renamed := compile_rename injective rebinding
    rw [succeeded] at renamed
    exact ⟨bytecode, succeeded, renamed⟩
  case rejected =>
    have failed :
        compile [.define "a" (.ident "b")] =
          .error (.undefinedVariable "b") :=
      compile_eq_error_iff.mpr (Program.firstError?_eq.trans rfl)
    have renamed := compile_rename injective [.define "a" (.ident "b")]
    rw [failed] at renamed
    exact ⟨failed, renamed⟩

end StackLang
