import StackLang.Proofs.Compilation.Visits

namespace StackLang

/-!
# Stack safety

A run visits only what the plan of its code foresees. One step leads from a
visit to a visit or to the end of the code, so a run never finds fewer values
than it takes, and comes to each offset at one depth only.
-/

/-- An instruction goes on behind itself, unless it is an unconditional jump,
or at its operand if it is a jump. -/
theorem Instr.target_of_execute
    {instr : Instr} {constants : Array Value} {next target : Nat}
    {machine after : Machine}
    (executed : instr.execute constants next machine = .ok target after) :
    instr.opcode ≠ .jump ∧ target = next ∨
      instr.opcode.isJump = true ∧ target = instr.operand := by
  by_cases straight : instr.opcode.isJump = false
  · left
    rw [instr.execute_of_not_jump straight] at executed
    simp only [Bind.bind, EStateM.bind] at executed
    cases effect : instr.effect constants machine with
    | ok _ machine' =>
        rw [effect] at executed
        cases executed
        refine ⟨?_, rfl⟩
        intro isJump
        rw [isJump] at straight
        cases straight
    | error fault machine' =>
        rw [effect] at executed
        cases executed
  · obtain ⟨opcode, operands⟩ := instr
    cases opcode with
    | jump =>
        cases executed
        exact .inr ⟨rfl, rfl⟩
    | jumpNotTruthy =>
        simp only [execute, Bind.bind, EStateM.bind] at executed
        cases popped : MachineM.pop machine with
        | ok condition machine' =>
            rw [popped] at executed
            by_cases truthy : condition.isTruthy = true
            · simp only [if_pos truthy] at executed
              cases executed
              exact .inl ⟨by simp, rfl⟩
            · simp only [if_neg truthy] at executed
              cases executed
              exact .inr ⟨rfl, rfl⟩
        | error fault machine' =>
            rw [popped] at executed
            cases executed
    | _ =>
        exact (straight rfl).elim

/-- Progress that keeps the stack of a base machine as it is. -/
def Plan.Keeps (plan : Plan) (base : Machine) : Progress → Prop
  | .running offset machine =>
      ∃ depth, plan.Admits 0 0 offset depth ∧ machine.Stacked base depth
  | .finished machine =>
      machine.stack = base.stack
  | .failed error _ =>
      error.fault.Expected

section Runs

variable {plan : Plan} {bytecode : Bytecode} {base : Machine}
variable (balanced : plan.Balanced bytecode.constants.size 0 0)
variable (consists : bytecode.code.Consists (plan.layout 0))

include balanced consists

/-- One step keeps the base. -/
theorem Bytecode.step_keeps
    {offset depth : Nat} {machine : Machine}
    (admits : plan.Admits 0 0 offset depth)
    (stacked : machine.Stacked base depth) :
    plan.Keeps base (bytecode.step offset machine) := by
  rcases admits with ⟨visit, member, rfl, rfl⟩ | ⟨rfl, rfl⟩
  · have line : visit.line ∈ linesFrom 0 (plan.layout 0) := by
      rw [← plan.map_line_visits 0 0]
      exact List.mem_map_of_mem member
    have fetched := consists.holds.fetch_of_mem line
    have foreseen := balanced.foresees 0 member
    -- What lies below the values that the instruction takes is its base.
    have moves :=
      Instr.execute_moves foreseen.pooled
        (visit.depth - visit.instr.opcode.pops)
        (visit.offset + visit.instr.size) base machine
    rw [Nat.sub_add_cancel foreseen.enough] at moves
    have moved := moves stacked
    simp only [Visit.line] at fetched
    simp only [step, fetched]
    cases executed :
        visit.instr.execute bytecode.constants
          (visit.offset + visit.instr.size) machine with
    | ok target after =>
        rw [executed] at moved
        exact ⟨_, foreseen.admits target (Instr.target_of_execute executed),
          moved⟩
    | error fault after =>
        rw [executed] at moved
        exact moved
  · have atEnd := consists.fetch_end
    rw [plan.codeSize_layout] at atEnd
    rw [balanced.depthAfter_eq] at stacked
    rw [Nat.zero_add, step, atEnd]
    exact stacked.stack_eq

/-- A run keeps the base, however far it goes. -/
theorem Bytecode.runFrom_keeps
    {offset depth : Nat} {machine : Machine} (fuel : Nat)
    (admits : plan.Admits 0 0 offset depth)
    (stacked : machine.Stacked base depth) :
    plan.Keeps base (bytecode.runFrom fuel offset machine) := by
  induction fuel generalizing offset depth machine with
  | zero =>
      exact ⟨depth, admits, stacked⟩
  | succ fuel inductionHypothesis =>
      have kept := step_keeps balanced consists admits stacked
      rw [runFrom]
      split
      case h_1 target after stepped =>
        rw [stepped] at kept
        obtain ⟨_, admitsTarget, stackedAfter⟩ := kept
        exact inductionHypothesis admitsTarget stackedAfter
      case h_2 =>
        exact kept

end Runs

/--
Whatever stack, variables and capacity a run starts with, it ends with the stack
that it started with or fails with an expected fault; and at each offset it has
the stack that it started with and a number of values on top that depends on the
offset alone.
-/
def Bytecode.StackSafe (bytecode : Bytecode) : Prop :=
  ∃ depthAt : Nat → Nat, ∀ (fuel : Nat) (machine : Machine),
    match bytecode.run fuel machine with
    | .running offset reached =>
        reached.Stacked machine (depthAt offset)
    | .finished reached =>
        reached.stack = machine.stack
    | .failed error _ =>
        error.fault.Expected

/-- Code is stack-safe when every program that was added to it was accepted. -/
theorem stackSafe_of_compiled
    {scope : Scope} {constants : Array Value} {programs : List Program}
    {after : Compilation}
    (succeeded :
      (programs.forM Program.generate).run (.resume scope constants) =
        .ok () after) :
    after.bytecode.StackSafe := by
  rw [Program.forM_generate] at succeeded
  have compiled := Program.compiled_of_run succeeded
  let plan := planStatements ⟨constants.size, scope⟩ programs.flatten
  have balanced : plan.Balanced after.bytecode.constants.size 0 0 :=
    compiled.balanced
  have consists : after.bytecode.code.Consists (plan.layout 0) :=
    compiled.consists
  refine ⟨plan.depthAt 0 0, fun fuel machine => ?_⟩
  have kept :=
    Bytecode.runFrom_keeps balanced consists fuel (.atStart plan)
      machine.stacked_self
  rw [Bytecode.run]
  cases progress : after.bytecode.runFrom fuel 0 machine with
  | running offset reached =>
      rw [progress] at kept
      obtain ⟨depth, admits, stackedThere⟩ := kept
      rwa [admits.eq_depthAt] at stackedThere
  | finished reached =>
      rw [progress] at kept
      exact kept
  | failed error reached =>
      rw [progress] at kept
      exact kept

/-- A choice without alternative, compiled after another program and on top of
constants and definitions from before. -/
theorem stackSafe_choice :
    ∃ after,
      (List.forM
          [[Stmt.define "a" (.int 7)],
            [.expr (.ifThen (.bool false) [.expr (.int 10), .block []])]]
          Program.generate).run
          (.resume (Scope.empty.define "a") #[.null]) = .ok () after ∧
        after.bytecode.StackSafe := by
  have accepted :
      ∃ after,
        (List.forM
            [[Stmt.define "a" (.int 7)],
              [.expr (.ifThen (.bool false) [.expr (.int 10), .block []])]]
            Program.generate).run
          (.resume (Scope.empty.define "a") #[.null]) = .ok () after :=
    ⟨_, rfl⟩
  obtain ⟨after, succeeded⟩ := accepted
  exact ⟨after, succeeded, stackSafe_of_compiled succeeded⟩

end StackLang
