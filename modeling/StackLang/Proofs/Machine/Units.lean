import StackLang.Proofs.Machine.Relocation
import StackLang.Session

namespace StackLang

/-!
# Units of a program

A program may be compiled and run in units, each on top of what the units before
it left: the scope and the constants for its code, the variables for its run.
That is the same as compiling and running it as a whole.
-/

/-- Compile units one after another. The answer holds the code of each, and the
compilation that a further unit would be added to. -/
def compileUnits (before : Compilation) :
    List Program → Except CompileError (List Bytecode × Compilation)
  | [] =>
      .ok ([], before)
  | unit :: rest =>
      match unit.generate.run before with
      | .error error _ =>
          .error error
      | .ok _ after => do
          let (bytecodes, last) ← compileUnits after.nextUnit rest
          return (after.bytecode :: bytecodes, last)

/-- How running units one after another ends. -/
inductive UnitsOutcome where
  /-- A unit is still running. -/
  | running
  /-- All units are finished. There are the variables that they left, and the
  value that each of them discarded last. -/
  | finished (globals : Array Value) (discarded : List (Option Value))
  /-- The unit of an index failed, with an error at an offset of its own code. -/
  | failed (index : Nat) (error : RuntimeError) (globals : Array Value)

/-- The outcome when a unit is finished and the units after it ended so. -/
def UnitsOutcome.afterUnit (lastPopped : Option Value) :
    UnitsOutcome → UnitsOutcome
  | .running =>
      .running
  | .finished globals discarded =>
      .finished globals (lastPopped :: discarded)
  | .failed index error globals =>
      .failed (index + 1) error globals

/-- Run units one after another, each for at most `fuel` steps on a machine that
finds the variables of the one before, until one of them fails. -/
def runUnits (fuel : Nat) (globals : Array Value) :
    List Bytecode → UnitsOutcome
  | [] =>
      .finished globals []
  | unit :: rest =>
      match unit.run fuel (.withGlobals globals) with
      | .running _ _ =>
          .running
      | .failed error machine =>
          .failed 0 error machine.globals
      | .finished machine =>
          (runUnits fuel machine.globals rest).afterUnit machine.lastPopped

/-- The latest value that there is. -/
def latestValue? (values : List (Option Value)) : Option Value :=
  values.reverse.findSome? id

/-- Units were compiled one after another. -/
inductive UnitsCompiled :
    Scope → Array Value → List Program → List Bytecode → Compilation → Prop
  | nil {scope : Scope} {constants : Array Value} :
      UnitsCompiled scope constants [] [] (.resume scope constants)
  | cons {scope : Scope} {constants : Array Value}
      {unit : Program} {units : List Program}
      {bytecodes : List Bytecode} {after last : Compilation}
      (first : Compiled scope constants unit after)
      (rest : UnitsCompiled after.scope after.constants units bytecodes last) :
      UnitsCompiled scope constants (unit :: units)
        (after.bytecode :: bytecodes) last

/-- The numbers after a unit are those of the compilation after it. -/
theorem Compiled.advance_eq
    {scope : Scope} {constants : Array Value} {unit : Program}
    {after : Compilation}
    (compiled : Compiled scope constants unit after) :
    advanceStatements ⟨constants.size, scope⟩ unit =
      ⟨after.constants.size, after.scope⟩ := by
  simp [advanceStatements, Numbering.advance, compiled.constants_eq,
    compiled.scope_eq]

/-- A program that is accepted as a whole is compiled in units. -/
theorem compileUnits_of_accepted
    {offset : Nat} {scope : Scope} {constants : Array Value}
    {units : List Program}
    (accepted :
      firstErrorOfStatements? offset ⟨constants.size, scope⟩ units.flatten =
        none) :
    ∃ bytecodes last,
      compileUnits (.resume scope constants) units = .ok (bytecodes, last) ∧
        UnitsCompiled scope constants units bytecodes last := by
  induction units generalizing offset scope constants with
  | nil =>
      exact ⟨[], _, rfl, .nil⟩
  | cons unit rest inductionHypothesis =>
      rw [List.flatten_cons, firstErrorOfStatements?_append_eq_none_iff]
        at accepted
      have acceptedAlone :=
        statements_accepted_before (Nat.zero_le offset) unit accepted.1
      obtain ⟨after, succeeded, compiled⟩ :=
        Program.run_of_accepted acceptedAlone
      rw [compiled.advance_eq] at accepted
      obtain ⟨bytecodes, last, restSucceeded, restCompiled⟩ :=
        inductionHypothesis accepted.2
      refine ⟨after.bytecode :: bytecodes, last, ?_,
        .cons compiled restCompiled⟩
      rw [compileUnits, succeeded]
      simp only [Compilation.nextUnit, restSucceeded]
      rfl

namespace UnitsCompiled

variable {scope : Scope} {constants : Array Value} {units : List Program}
variable {bytecodes : List Bytecode} {last : Compilation}

/-- Units add the literals of the whole to the pool. -/
theorem constants_eq
    (compiled : UnitsCompiled scope constants units bytecodes last) :
    last.constants =
      constants ++
        ((literalsOfStatements units.flatten).map Value.int).toArray := by
  induction compiled with
  | nil =>
      simp [Compilation.resume, literalsOfStatements]
  | cons first _ restHypothesis =>
      rw [restHypothesis, first.constants_eq]
      simp

/-- Units define the names of the whole. -/
theorem scope_eq
    (compiled : UnitsCompiled scope constants units bytecodes last) :
    last.scope = scope.defineAll (letsOfStatements units.flatten) := by
  induction compiled with
  | nil =>
      rfl
  | cons first _ restHypothesis =>
      rw [restHypothesis, first.scope_eq]
      simp [Scope.defineAll]

end UnitsCompiled

/-- Statements in two parts are executed one part after the other. -/
theorem execute_planStatements_append
    (constants : Array Value) (offset : Nat) (numbering : Numbering)
    (first second : List Stmt) :
    (planStatements numbering (first ++ second)).execute constants offset =
      (do
        (planStatements numbering first).execute constants offset
        (planStatements (advanceStatements numbering first) second).execute
          constants (offset + (planStatements numbering first).size)) := by
  induction first generalizing offset numbering with
  | nil =>
      rfl
  | cons statement rest inductionHypothesis =>
      simp only [List.cons_append, planStatements, Plan.execute, Plan.size,
        inductionHypothesis, bind_assoc, advanceStatements_cons, Nat.add_assoc]

/-- The length of the code of the units before an index. -/
def codeBefore : List Bytecode → (index : Nat) → Nat
  | bytecode :: rest, index + 1 =>
      bytecode.code.size + codeBefore rest index
  | _, _ =>
      0

@[simp] theorem codeBefore_succ
    (bytecode : Bytecode) (rest : List Bytecode) (index : Nat) :
    codeBefore (bytecode :: rest) (index + 1) =
      bytecode.code.size + codeBefore rest index :=
  rfl

theorem latestValue?_cons
    (value : Option Value) (rest : List (Option Value)) :
    latestValue? (value :: rest) = (latestValue? rest).or value := by
  simp [latestValue?, List.findSome?_append]

/-- The units ended as their code did when it was executed in one piece, from
an offset on and after an earlier value was discarded. -/
def UnitsOutcome.Matches
    (bytecodes : List Bytecode) (offset : Nat) (earlier : Option Value) :
    UnitsOutcome → EStateM.Result RuntimeError Machine PUnit → Prop
  | .finished globals discarded, .ok _ machine =>
      machine =
        (Machine.withGlobals globals).recalling
          ((latestValue? discarded).or earlier)
  | .failed index error globals, .error found machine =>
      found = error.shifted (offset + codeBefore bytecodes index) ∧
        machine.globals = globals
  | _, _ =>
      False

/-- A finished unit in front of units that ended as their code did. -/
theorem UnitsOutcome.Matches.afterUnit
    {bytecode : Bytecode} {bytecodes : List Bytecode} {offset : Nat}
    {lastPopped earlier : Option Value} {outcome : UnitsOutcome}
    {result : EStateM.Result RuntimeError Machine PUnit}
    (ends :
      outcome.Matches bytecodes (offset + bytecode.code.size)
        (lastPopped.or earlier) result) :
    (outcome.afterUnit lastPopped).Matches (bytecode :: bytecodes) offset
      earlier result := by
  cases outcome with
  | running =>
      exact ends
  | finished globals discarded =>
      cases result with
      | ok _ machine =>
          rw [Matches] at ends
          rw [UnitsOutcome.afterUnit, Matches, latestValue?_cons,
            Option.or_assoc]
          exact ends
      | error error machine =>
          exact ends
  | failed index error globals =>
      cases result with
      | ok _ machine =>
          exact ends
      | error found machine =>
          rw [Matches] at ends
          rw [UnitsOutcome.afterUnit, Matches, codeBefore_succ,
            ← Nat.add_assoc]
          exact ends

/-- A finished machine with the stack and capacity that it started with, as the
next unit finds it. -/
theorem Machine.recalling_eq_withGlobals
    {machine : Machine} {globals : Array Value}
    (stacked : machine.Stacked (.withGlobals globals) 0)
    (earlier : Option Value) :
    machine.recalling earlier =
      (Machine.withGlobals machine.globals).recalling
        (machine.lastPopped.or earlier) := by
  have sameStack := stacked.stack_eq
  have sameCapacity := stacked.1
  obtain ⟨capacity, stack, globals, lastPopped⟩ := machine
  simp only at sameStack sameCapacity
  subst sameStack sameCapacity
  rfl

/-- A unit fails or finishes, on its own and further on in longer code alike. -/
theorem Compiled.ends_alike
    {scope : Scope} {constants : Array Value} {unit : Program}
    {after : Compilation}
    (compiled : Compiled scope constants unit after)
    (more : Array Value) (offset : Nat) (globals : Array Value)
    (earlier : Option Value) :
    let further :=
      (planStatements ⟨constants.size, scope⟩ unit).execute
        (after.constants ++ more) offset
        ((Machine.withGlobals globals).recalling earlier)
    ∃ steps machine,
      (∃ error,
        further = .error (error.shifted offset) (machine.recalling earlier) ∧
          ∀ fuel, steps ≤ fuel →
            after.bytecode.run fuel (.withGlobals globals) =
              .failed error machine) ∨
        further =
            .ok ()
              ((Machine.withGlobals machine.globals).recalling
                (machine.lastPopped.or earlier)) ∧
          ∀ fuel, steps ≤ fuel →
            after.bytecode.run fuel (.withGlobals globals) =
              .finished machine := by
  intro further
  let plan := planStatements ⟨constants.size, scope⟩ unit
  have balanced : plan.Balanced after.bytecode.constants.size 0 0 :=
    compiled.balanced
  have consists : after.bytecode.code.Consists (plan.layout 0) :=
    compiled.consists
  obtain ⟨steps, runs⟩ :=
    plan.run_eq balanced.straight consists (.withGlobals globals)
  have relocates :=
    Plan.execute_relocates balanced more offset 0 earlier
      (.withGlobals globals)
  cases executed :
      plan.execute after.bytecode.constants 0 (.withGlobals globals) with
  | error error machine =>
      simp only [executed] at relocates
      refine ⟨steps, machine, .inl ⟨error, relocates, ?_⟩⟩
      intro fuel enough
      rw [runs fuel enough, executed, Progress.ofResult]
  | ok _ machine =>
      -- The unit leaves the stack empty, so of its machine the variables and
      -- the discarded value are all that could be seen further on.
      have moved :=
        balanced.execute_moves rfl 0 _ _
          (Machine.stacked_self (.withGlobals globals))
      rw [executed] at moved
      simp only [executed, machine.recalling_eq_withGlobals moved]
        at relocates
      refine ⟨steps, machine, .inr ⟨relocates, ?_⟩⟩
      intro fuel enough
      rw [runs fuel enough, executed, Progress.ofResult]

/-- Running units one after another ends as executing their plans in one piece
does, on the same variables. -/
theorem UnitsCompiled.runUnits_matches
    {scope : Scope} {constants : Array Value} {units : List Program}
    {bytecodes : List Bytecode} {last : Compilation}
    (compiled : UnitsCompiled scope constants units bytecodes last)
    (offset : Nat) (globals : Array Value) (earlier : Option Value) :
    ∃ steps, ∀ fuel, steps ≤ fuel →
      (runUnits fuel globals bytecodes).Matches bytecodes offset earlier
        ((planStatements ⟨constants.size, scope⟩ units.flatten).execute
          last.constants offset
          ((Machine.withGlobals globals).recalling earlier)) := by
  induction compiled generalizing offset globals earlier with
  | nil =>
      exact ⟨0, fun _ _ => rfl⟩
  | @cons scope constants unit units bytecodes after last first rest
      restHypothesis =>
      obtain ⟨unitSteps, machine, unitEnds⟩ :=
        first.ends_alike
          ((literalsOfStatements units.flatten).map Value.int).toArray offset
          globals earlier
      rw [← rest.constants_eq] at unitEnds
      have inTwoParts :=
        execute_planStatements_append last.constants offset
          ⟨constants.size, scope⟩ unit units.flatten
      rw [first.advance_eq] at inTwoParts
      rw [List.flatten_cons, inTwoParts]
      simp only [Bind.bind, EStateM.bind]
      rcases unitEnds with ⟨error, failed, runs⟩ | ⟨finished, runs⟩
      · refine ⟨unitSteps, fun fuel enough => ?_⟩
        rw [failed, runUnits, runs fuel enough]
        exact ⟨rfl, rfl⟩
      · obtain ⟨restSteps, restRuns⟩ :=
          restHypothesis
            (offset + (planStatements ⟨constants.size, scope⟩ unit).size)
            machine.globals (machine.lastPopped.or earlier)
        refine ⟨max unitSteps restSteps, fun fuel enough => ?_⟩
        have ends :=
          runs fuel (Nat.le_trans (Nat.le_max_left _ _) enough)
        have restEnds :=
          restRuns fuel (Nat.le_trans (Nat.le_max_right _ _) enough)
        have unitSize := first.consists.size_eq
        rw [Plan.codeSize_layout] at unitSize
        rw [← unitSize] at restEnds
        have matched := restEnds.afterUnit
        rw [unitSize] at matched
        rw [finished, runUnits, ends]
        exact matched

/-- Running units ended as running the whole did: with the same variables, and
with the last value that a unit discarded, or with the same error, which the
whole has behind the code of the units before. -/
def UnitsOutcome.AgreesWith (bytecodes : List Bytecode) :
    UnitsOutcome → Progress → Prop
  | .finished globals discarded, .finished machine =>
      machine.globals = globals ∧
        machine.lastPopped = latestValue? discarded
  | .failed index error globals, .failed found machine =>
      found = error.shifted (codeBefore bytecodes index) ∧
        machine.globals = globals
  | _, _ =>
      False

/-- Units that ended as their code did in one piece ended as its run did. -/
theorem UnitsOutcome.Matches.agreesWith
    {bytecodes : List Bytecode} {outcome : UnitsOutcome}
    {result : EStateM.Result RuntimeError Machine PUnit}
    (ends : outcome.Matches bytecodes 0 none result) :
    outcome.AgreesWith bytecodes (.ofResult result) := by
  cases outcome with
  | running =>
      exact ends.elim
  | finished globals discarded =>
      cases result with
      | ok _ machine =>
          rw [Matches] at ends
          subst ends
          exact ⟨rfl, Option.or_none⟩
      | error error machine =>
          exact ends.elim
  | failed index error globals =>
      cases result with
      | ok _ machine =>
          exact ends.elim
      | error found machine =>
          rw [Matches, Nat.zero_add] at ends
          exact ends

/-- A program that is compiled as a whole is compiled in units, to the same
constants and the same scope, and running the units ends as running the whole
does. -/
theorem units_agree_with_whole
    {units : List Program} {whole : Compilation}
    (succeeded :
      (Program.generate units.flatten).run .start = .ok () whole) :
    ∃ bytecodes last,
      compileUnits .start units = .ok (bytecodes, last) ∧
        last.constants = whole.constants ∧
        last.scope = whole.scope ∧
        ∃ steps, ∀ fuel, steps ≤ fuel →
          (runUnits fuel #[] bytecodes).AgreesWith bytecodes
            (whole.bytecode.run fuel .initial) := by
  have compiled : Compiled .empty #[] units.flatten whole :=
    Program.compiled_of_run succeeded
  obtain ⟨bytecodes, last, unitsSucceeded, unitsCompiled⟩ :=
    compileUnits_of_accepted compiled.accepted
  have sameConstants : last.constants = whole.constants :=
    unitsCompiled.constants_eq.trans compiled.constants_eq.symm
  have sameScope : last.scope = whole.scope :=
    unitsCompiled.scope_eq.trans compiled.scope_eq.symm
  refine ⟨bytecodes, last, unitsSucceeded, sameConstants, sameScope, ?_⟩
  let plan := planStatements ⟨0, .empty⟩ units.flatten
  have balanced : plan.Balanced whole.bytecode.constants.size 0 0 :=
    compiled.balanced
  have consists : whole.bytecode.code.Consists (plan.layout 0) :=
    compiled.consists
  obtain ⟨wholeSteps, wholeRuns⟩ :=
    plan.run_eq balanced.straight consists .initial
  obtain ⟨unitSteps, unitsMatch⟩ :=
    unitsCompiled.runUnits_matches 0 #[] none
  refine ⟨max unitSteps wholeSteps, fun fuel enough => ?_⟩
  have ends :=
    wholeRuns fuel (Nat.le_trans (Nat.le_max_right _ _) enough)
  have matched :
      (runUnits fuel #[] bytecodes).Matches bytecodes 0 none
        (plan.execute last.constants 0 .initial) :=
    unitsMatch fuel (Nat.le_trans (Nat.le_max_left _ _) enough)
  rw [sameConstants] at matched
  rw [ends]
  exact matched.agreesWith

/-- Three units, of which one is empty and the last one fails. -/
theorem units_agree_failing_last :
    ∃ whole,
      (Program.generate
          [[Stmt.define "a" (.int 1), .expr (.int 5)], [],
            [.expr (.binary (.bool true) "<" (.int 2))]].flatten).run
          .start = .ok () whole ∧
        ∃ bytecodes last,
          compileUnits .start
              [[Stmt.define "a" (.int 1), .expr (.int 5)], [],
                [.expr (.binary (.bool true) "<" (.int 2))]] =
            .ok (bytecodes, last) ∧
          last.constants = whole.constants ∧
          last.scope = whole.scope ∧
          ∃ steps, ∀ fuel, steps ≤ fuel →
            (runUnits fuel #[] bytecodes).AgreesWith bytecodes
              (whole.bytecode.run fuel .initial) := by
  have accepted :
      ∃ whole,
        (Program.generate
            [[Stmt.define "a" (.int 1), .expr (.int 5)], [],
              [.expr (.binary (.bool true) "<" (.int 2))]].flatten).run
          .start = .ok () whole :=
    ⟨_, rfl⟩
  obtain ⟨whole, succeeded⟩ := accepted
  exact ⟨whole, succeeded, units_agree_with_whole succeeded⟩

end StackLang
