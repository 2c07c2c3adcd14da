import StackLang.Proofs.Compilation.Generation
import StackLang.Session

namespace StackLang

/-!
# Accepted programs

A program that has no fault is compiled, and one that is compiled has no fault.
The unit consists of the program's plan, laid out at the start of the code.
-/

/-- A program was compiled on top of a scope and constants. -/
structure Compiled
    (scope : Scope) (constants : Array Value) (program : Program)
    (after : Compilation) : Prop where
  accepted :
    firstErrorOfStatements? 0 ⟨constants.size, scope⟩ program = none
  consists :
    after.bytecode.code.Consists
      ((planStatements ⟨constants.size, scope⟩ program).layout 0)
  constants_eq :
    after.constants =
      constants ++ ((literalsOfStatements program).map Value.int).toArray
  scope_eq :
    after.scope = scope.defineAll (letsOfStatements program)

namespace Meets

variable {α : Type} {error? : Option CompileError}
variable {described : α → Compilation → Prop}

/-- A step that succeeds has no fault. -/
theorem of_ok
    {result : EStateM.Result CompileError Compilation α}
    {value : α} {after : Compilation}
    (meets : Meets result error? described)
    (succeeded : result = .ok value after) :
    error? = none ∧ described value after := by
  subst succeeded
  cases error? with
  | none =>
      exact ⟨rfl, meets⟩
  | some error =>
      exact meets.elim

/-- A step that fails has the fault that it reports. -/
theorem of_error
    {result : EStateM.Result CompileError Compilation α}
    {error : CompileError} {after : Compilation}
    (meets : Meets result error? described)
    (failed : result = .error error after) :
    error? = some error := by
  subst failed
  cases error? with
  | none =>
      exact meets.elim
  | some raised =>
      exact congrArg some (Eq.symm meets)

/-- A step without fault succeeds. -/
theorem exists_ok
    {result : EStateM.Result CompileError Compilation α}
    (meets : Meets result error? described)
    (accepted : error? = none) :
    ∃ value after, result = .ok value after ∧ described value after := by
  subst accepted
  cases result with
  | ok value after =>
      exact ⟨value, after, rfl, meets⟩
  | error error after =>
      exact meets.elim

end Meets

section Generation

variable {scope : Scope} {constants : Array Value} {program : Program}

/-- Generation from the start of new code meets the plan. -/
theorem Program.generate_meets :
    Meets (program.generate (.resume scope constants))
      (firstErrorOfStatements? 0 ⟨constants.size, scope⟩ program)
      (fun _ after =>
        after.Represents
          (Draft.add ⟨[], constants, scope⟩
            (planStatements ⟨constants.size, scope⟩ program)
            (literalsOfStatements program) (letsOfStatements program))) :=
  generateStatements_laysOut program _ _
    (Compilation.resume_represents scope constants) trivial

/-- What stands after an accepted program. -/
theorem Compiled.of_represents
    {after : Compilation}
    (accepted :
      firstErrorOfStatements? 0 ⟨constants.size, scope⟩ program = none)
    (represents :
      after.Represents
        (Draft.add ⟨[], constants, scope⟩
          (planStatements ⟨constants.size, scope⟩ program)
          (literalsOfStatements program) (letsOfStatements program))) :
    Compiled scope constants program after := by
  have consists := represents.tracks.consists
  rw [Draft.add, List.nil_append] at consists
  exact ⟨accepted, consists, represents.constants, represents.scope⟩

/-- Only accepted programs are compiled. -/
theorem Program.compiled_of_run
    {after : Compilation}
    (succeeded :
      program.generate.run (.resume scope constants) = .ok () after) :
    Compiled scope constants program after := by
  obtain ⟨accepted, represents⟩ := generate_meets.of_ok succeeded
  exact .of_represents accepted represents

/-- Every accepted program is compiled. -/
theorem Program.run_of_accepted
    (accepted :
      firstErrorOfStatements? 0 ⟨constants.size, scope⟩ program = none) :
    ∃ after,
      program.generate.run (.resume scope constants) = .ok () after ∧
        Compiled scope constants program after := by
  obtain ⟨_, after, succeeded, represents⟩ :=
    generate_meets.exists_ok accepted
  exact ⟨after, succeeded, .of_represents accepted represents⟩

/-- Statements in two parts are generated one part after the other. -/
theorem generateStatements_append (first second : List Stmt) :
    generateStatements (first ++ second) =
      (do
        generateStatements first
        generateStatements second) := by
  induction first with
  | nil =>
      rfl
  | cons statement rest inductionHypothesis =>
      simp only [List.cons_append, generateStatements, inductionHypothesis,
        bind_assoc]

/-- Programs added one after another are added as one program. -/
theorem Program.forM_generate (programs : List Program) :
    programs.forM Program.generate =
      Program.generate programs.flatten := by
  induction programs with
  | nil =>
      rfl
  | cons program rest inductionHypothesis =>
      rw [List.flatten_cons, Program.generate, generateStatements_append]
      exact congrArg (Bind.bind (generateStatements program))
        (funext fun _ => inductionHypothesis)

end Generation

/-- A program that is compiled on its own. -/
theorem compiled_of_compile
    {program : Program} {bytecode : Bytecode}
    (succeeded : compile program = .ok bytecode) :
    ∃ after,
      after.bytecode = bytecode ∧ Compiled .empty #[] program after := by
  rw [compile] at succeeded
  cases run : program.generate.run .start with
  | error error after =>
      rw [run] at succeeded
      cases succeeded
  | ok _ after =>
      rw [run] at succeeded
      cases succeeded
      exact ⟨after, rfl, program.compiled_of_run run⟩

/-- A program without fault becomes the code of its plan. -/
theorem compile_eq_of_accepted
    {program : Program}
    (accepted : firstErrorOfStatements? 0 ⟨0, .empty⟩ program = none) :
    compile program =
      .ok
        ⟨⟨(encodeAll
            ((planStatements ⟨0, .empty⟩ program).layout 0)).toArray⟩,
          ((literalsOfStatements program).map Value.int).toArray⟩ := by
  have accepted' :
      firstErrorOfStatements? 0 ⟨(#[] : Array Value).size, .empty⟩ program =
        none :=
    accepted
  obtain ⟨after, run, compiled⟩ := Program.run_of_accepted accepted'
  have bytes :=
    Array.toArray_toList.symm.trans
      (congrArg List.toArray compiled.consists.bytes)
  have constants := compiled.constants_eq
  rw [Array.empty_append] at constants
  rw [compile, Compilation.start, run]
  change
    Except.ok (Bytecode.mk ⟨after.bytecode.code.bytes⟩ after.constants) = _
  rw [bytes, constants]
  rfl

/-- Exactly the programs without fault are compiled. -/
theorem exists_compile_eq_ok_iff {program : Program} :
    (∃ bytecode, compile program = .ok bytecode) ↔
      firstErrorOfStatements? 0 ⟨0, .empty⟩ program = none := by
  constructor
  case mp =>
    rintro ⟨bytecode, succeeded⟩
    obtain ⟨after, _, compiled⟩ := compiled_of_compile succeeded
    exact compiled.accepted
  case mpr =>
    intro accepted
    exact ⟨_, compile_eq_of_accepted accepted⟩

/-- A program is rejected for its first fault. -/
theorem compile_eq_error_iff {program : Program} {error : CompileError} :
    compile program = .error error ↔
      firstErrorOfStatements? 0 ⟨0, .empty⟩ program = some error := by
  have meets := @Program.generate_meets .empty #[] program
  rw [compile, Compilation.start]
  cases run : program.generate.run (.resume .empty #[]) with
  | ok _ after =>
      have accepted := (meets.of_ok run).1
      simp_all
  | error raised after =>
      have fault := meets.of_error run
      simp_all

end StackLang
