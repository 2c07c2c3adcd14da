import StackLang.Proofs.Compilation.Plan
import StackLang.Proofs.Machine.Runs

namespace StackLang

open MachineM

/-!
# Executing plans

A plan is executed by recursion over its structure, without any code to fetch
from. Where the layout of a plan stands in some code, a run that comes to its
start does what executing the plan does, and goes on at its end.
-/

/-- An instruction that answers with an offset of its own. -/
def Opcode.isJump : Opcode → Bool
  | .jump | .jumpNotTruthy =>
      true
  | _ =>
      false

theorem Opcode.eq_of_isJump {opcode : Opcode} (jumps : opcode.isJump = true) :
    opcode = .jump ∨ opcode = .jumpNotTruthy := by
  cases opcode <;> simp [isJump] at jumps ⊢

/-- Steps of placed code. A failure tells the offset of the instruction. -/
abbrev PlacedM :=
  EStateM RuntimeError Machine

/-- A step of the instruction at an offset. -/
def MachineM.locate {α : Type} (offset : Nat) (step : MachineM α) :
    PlacedM α :=
  fun machine =>
    match step machine with
    | .ok value after =>
        .ok value after
    | .error fault after =>
        .error ⟨offset, fault⟩ after

section Placed

variable {α : Type} {offset : Nat} {step : MachineM α} {machine after : Machine}

/-- A step succeeds where its instruction stands as it does anywhere. -/
theorem MachineM.locate_eq_ok_iff {value : α} :
    step.locate offset machine = .ok value after ↔
      step machine = .ok value after := by
  rw [locate]
  cases step machine <;> simp

/-- A step fails with the offset at which its instruction stands. -/
theorem MachineM.locate_eq_error_iff {error : RuntimeError} :
    step.locate offset machine = .error error after ↔
      error.offset = offset ∧ step machine = .error error.fault after := by
  obtain ⟨place, fault⟩ := error
  rw [locate]
  cases step machine <;> simp [eq_comm, and_assoc]

end Placed

/-- What an instruction does, apart from where it goes on. -/
def Instr.effect
    (constants : Array Value) (instr : Instr) : MachineM PUnit := do
  let _ ← instr.execute constants 0

section Effect

variable {instr : Instr} {constants : Array Value} {machine after : Machine}

theorem Instr.effect_eq_ok_iff :
    instr.effect constants machine = .ok () after ↔
      ∃ target, instr.execute constants 0 machine = .ok target after := by
  rw [effect, bind_eq_ok_iff]
  simp

theorem Instr.effect_eq_error_iff {fault : Fault} :
    instr.effect constants machine = .error fault after ↔
      instr.execute constants 0 machine = .error fault after := by
  rw [effect, bind_eq_error_iff]
  simp

end Effect

/-- An instruction that is not a jump goes on at the next one. -/
theorem Instr.execute_of_not_jump
    {instr : Instr} (straight : instr.opcode.isJump = false)
    (constants : Array Value) (next : Nat) :
    instr.execute constants next =
      (do
        instr.effect constants
        return next) := by
  obtain ⟨opcode, operands⟩ := instr
  cases opcode with
  | jump =>
      cases straight
  | jumpNotTruthy =>
      cases straight
  | constant =>
      simp only [effect, execute]
      split <;> simp
  | div =>
      simp only [effect, execute, bind_assoc]
      refine bind_congr fun operands => ?_
      split <;> simp
  | minus =>
      simp only [effect, execute, bind_assoc]
      refine bind_congr fun operand => ?_
      split <;> simp
  | _ =>
      simp [effect, execute]

/-- A property that the operations on the stack have, and that one step after
another has if both have it. -/
structure MachineM.Hereditary
    (holds : {α : Type} → MachineM α → Prop) : Prop where
  pure {α : Type} (value : α) : holds (Pure.pure value)
  throw {α : Type} (fault : Fault)
    (notUndefined : ∀ slot, fault ≠ .undefinedGlobal slot) :
    holds (throw fault : MachineM α)
  bind {α β : Type} {step : MachineM α} {next : α → MachineM β} :
    holds step → (∀ value, holds (next value)) → holds (step >>= next)
  push (value : Value) : holds (MachineM.push value)
  pop : holds MachineM.pop

namespace MachineM.Hereditary

variable {holds : {α : Type} → MachineM α → Prop}
variable (hereditary : Hereditary holds)

include hereditary

theorem popInts (opcode : Opcode) : holds (MachineM.popInts opcode) := by
  apply hereditary.bind hereditary.pop
  intro right
  apply hereditary.bind hereditary.pop
  intro left
  split
  · exact hereditary.pure _
  · exact hereditary.throw _ nofun

/-- Every instruction is made of operations on the stack, apart from the three
that concern the globals and the value that was discarded last. -/
theorem execute
    (instr : Instr) (constants : Array Value) (next : Nat)
    (setLastPopped :
      instr.opcode = .pop → ∀ value, holds (MachineM.setLastPopped value))
    (setGlobal :
      instr.opcode = .setGlobal →
        ∀ value, holds (MachineM.setGlobal instr.operand value))
    (getGlobal :
      instr.opcode = .getGlobal → holds (MachineM.getGlobal instr.operand)) :
    holds (instr.execute constants next) := by
  have pushes (value : Value) :
      holds (do
        MachineM.push value
        return next) :=
    hereditary.bind (hereditary.push value) fun _ => hereditary.pure next
  obtain ⟨opcode, operands⟩ := instr
  cases opcode with
  | constant =>
      simp only [Instr.execute]
      cases constants[Instr.operand ⟨.constant, operands⟩]? with
      | some value =>
          exact pushes value
      | none =>
          exact hereditary.bind (hereditary.throw _ nofun) fun _ =>
            hereditary.pure _
  | pop =>
      exact hereditary.bind hereditary.pop fun value =>
        hereditary.bind (setLastPopped rfl value) fun _ =>
          hereditary.pure _
  | add | sub | mul | greaterThan =>
      exact hereditary.bind (hereditary.popInts _) fun _ => pushes _
  | div =>
      apply hereditary.bind (hereditary.popInts _)
      intro operands
      by_cases isZero : operands.2 = 0
      · simp only [if_pos isZero]
        exact hereditary.bind (hereditary.throw _ nofun) fun _ => pushes _
      · simp only [if_neg isZero]
        exact pushes _
  | equal | notEqual =>
      exact hereditary.bind hereditary.pop fun _ =>
        hereditary.bind hereditary.pop fun _ => pushes _
  | bang =>
      exact hereditary.bind hereditary.pop fun _ => pushes _
  | minus =>
      apply hereditary.bind hereditary.pop
      intro operand
      cases operand with
      | int number =>
          exact pushes _
      | bool truth =>
          exact hereditary.bind (hereditary.throw _ nofun) fun _ =>
            hereditary.pure _
      | null =>
          exact hereditary.bind (hereditary.throw _ nofun) fun _ =>
            hereditary.pure _
  | pushTrue | pushFalse | pushNull =>
      exact pushes _
  | jump =>
      exact hereditary.pure _
  | jumpNotTruthy =>
      exact hereditary.bind hereditary.pop fun _ => hereditary.pure _
  | setGlobal =>
      exact hereditary.bind hereditary.pop fun value =>
        hereditary.bind (setGlobal rfl value) fun _ =>
          hereditary.pure _
  | getGlobal =>
      exact hereditary.bind (getGlobal rfl) fun _ => pushes _

end MachineM.Hereditary

namespace Plan

/-- No instruction of the plan is a jump; only choices become jumps. -/
def Straight : Plan → Prop
  | .empty =>
      True
  | .single instr =>
      instr.opcode.isJump = false
  | .seq first second =>
      first.Straight ∧ second.Straight
  | .choice consequence alternative =>
      consequence.Straight ∧ alternative.Straight

/-- Execute a plan that is laid out at an offset. -/
def execute (constants : Array Value) (offset : Nat) : Plan → PlacedM PUnit
  | .empty =>
      pure ()
  | .single instr =>
      locate offset (instr.effect constants)
  | .seq first second => do
      first.execute constants offset
      second.execute constants (offset + first.size)
  | .choice consequence alternative => do
      let condition ← locate offset pop
      if condition.isTruthy then
        consequence.execute constants (offset + jumpSize)
      else
        alternative.execute constants
          (offset + jumpSize + consequence.size + jumpSize)

end Plan

namespace Bytecode

/-- A run that comes to an offset gives the result, and goes on elsewhere if
the result is no failure. -/
def Reaches
    (bytecode : Bytecode) (offset : Nat) (machine : Machine) (finish : Nat)
    (result : EStateM.Result RuntimeError Machine PUnit) : Prop :=
  ∃ steps, ∀ fuel,
    bytecode.runFrom (steps + fuel) offset machine =
      match result with
      | .ok _ after =>
          bytecode.runFrom fuel finish after
      | .error error after =>
          .failed error after

namespace Reaches

variable {bytecode : Bytecode} {offset finish : Nat} {machine : Machine}

/-- A run is where it is. -/
theorem refl : bytecode.Reaches offset machine offset (.ok () machine) :=
  ⟨0, fun fuel => by rw [Nat.zero_add]⟩

/-- What a run reaches from where it got to, it reaches from where it was. -/
theorem trans
    {middle : Nat} {after : Machine}
    {result : EStateM.Result RuntimeError Machine PUnit}
    (first : bytecode.Reaches offset machine middle (.ok () after))
    (second : bytecode.Reaches middle after finish result) :
    bytecode.Reaches offset machine finish result := by
  obtain ⟨firstSteps, firstRun⟩ := first
  obtain ⟨secondSteps, secondRun⟩ := second
  refine ⟨firstSteps + secondSteps, fun fuel => ?_⟩
  rw [Nat.add_assoc, firstRun]
  exact secondRun fuel

/-- A result that is a failure does not depend on where to go on. -/
theorem failed
    {elsewhere : Nat} {error : RuntimeError} {after : Machine}
    (reaches : bytecode.Reaches offset machine elsewhere (.error error after)) :
    bytecode.Reaches offset machine finish (.error error after) :=
  reaches

/-- Code for one step after another, placed one after the other. -/
theorem bind
    {middle : Nat} {first second : PlacedM PUnit}
    (firstReaches : bytecode.Reaches offset machine middle (first machine))
    (secondReaches :
      ∀ after, bytecode.Reaches middle after finish (second after)) :
    bytecode.Reaches offset machine finish
      ((first >>= fun _ => second) machine) := by
  cases shape : first machine with
  | ok _ after =>
      rw [shape] at firstReaches
      simp only [Bind.bind, EStateM.bind, shape]
      exact firstReaches.trans (secondReaches after)
  | error error after =>
      rw [shape] at firstReaches
      simp only [Bind.bind, EStateM.bind, shape]
      exact firstReaches.failed

/-- One instruction is executed in one step. -/
theorem of_fetch
    {instr : Instr} {next : Nat}
    (fetched : bytecode.code.fetch offset = .instr instr next)
    (machine : Machine) (finish : Nat) :
    match instr.execute bytecode.constants next machine with
    | .ok target after =>
        bytecode.Reaches offset machine target (.ok () after)
    | .error fault after =>
        bytecode.Reaches offset machine finish
          (.error ⟨offset, fault⟩ after) := by
  cases executed : instr.execute bytecode.constants next machine with
  | ok target after =>
      refine ⟨1, fun fuel => ?_⟩
      simp [Nat.add_comm 1 fuel, runFrom, step, fetched, executed]
  | error fault after =>
      refine ⟨1, fun fuel => ?_⟩
      simp [Nat.add_comm 1 fuel, runFrom, step, fetched, executed]

/-- An instruction that is not a jump is executed and left behind. -/
theorem of_straight
    {instr : Instr} {next : Nat}
    (fetched : bytecode.code.fetch offset = .instr instr next)
    (straight : instr.opcode.isJump = false) :
    bytecode.Reaches offset machine next
      (locate offset (instr.effect bytecode.constants) machine) := by
  have reaches := of_fetch fetched machine next
  rw [instr.execute_of_not_jump straight] at reaches
  simp only [Bind.bind, EStateM.bind] at reaches
  rw [locate]
  cases effect : instr.effect bytecode.constants machine with
  | ok _ after =>
      rw [effect] at reaches
      exact reaches
  | error fault after =>
      rw [effect] at reaches
      exact reaches

end Reaches

end Bytecode

section Choice

variable {bytecode : Bytecode} {offset target next : Nat}

/-- A jump goes to its target. -/
theorem Bytecode.Reaches.jump
    (fetched :
      bytecode.code.fetch offset = .instr ⟨.jump, [target]⟩ next)
    (machine : Machine) :
    bytecode.Reaches offset machine target (.ok () machine) :=
  of_fetch fetched machine target

/-- A conditional jump goes on behind it, or at its target. -/
theorem Bytecode.Reaches.jumpNotTruthy
    {finish : Nat} {machine : Machine} {chosen rejected : PlacedM PUnit}
    (fetched :
      bytecode.code.fetch offset = .instr ⟨.jumpNotTruthy, [target]⟩ next)
    (chosenReaches :
      ∀ after, bytecode.Reaches next after finish (chosen after))
    (rejectedReaches :
      ∀ after, bytecode.Reaches target after finish (rejected after)) :
    bytecode.Reaches offset machine finish
      ((do
        let condition ← locate offset pop
        if condition.isTruthy then chosen else rejected : PlacedM PUnit)
        machine) := by
  have reaches := of_fetch fetched machine finish
  simp only [Instr.execute, Instr.operand, List.headD_cons, Bind.bind,
    EStateM.bind] at reaches
  simp only [Bind.bind, EStateM.bind, locate]
  cases popped : pop machine with
  | error fault after =>
      rw [popped] at reaches
      exact reaches
  | ok condition after =>
      rw [popped] at reaches
      by_cases truthy : condition.isTruthy = true
      · simp only [truthy, if_true] at reaches ⊢
        exact reaches.trans (chosenReaches after)
      · simp only [truthy] at reaches ⊢
        exact reaches.trans (rejectedReaches after)

end Choice

/-- A run over the layout of a plan executes the plan. -/
theorem Plan.execute_reaches
    {plan : Plan} {bytecode : Bytecode} {offset : Nat}
    (straight : plan.Straight)
    (holds : bytecode.code.Holds offset (plan.layout offset))
    (machine : Machine) :
    bytecode.Reaches offset machine (offset + plan.size)
      (plan.execute bytecode.constants offset machine) := by
  induction plan generalizing offset machine with
  | empty =>
      exact .refl
  | single instr =>
      exact .of_straight holds.fetch straight
  | seq first second firstHypothesis secondHypothesis =>
      have secondHolds := holds.right
      rw [codeSize_layout] at secondHolds
      rw [size, ← Nat.add_assoc]
      exact (firstHypothesis straight.1 holds.left machine).bind
        (secondHypothesis straight.2 secondHolds)
  | choice consequence alternative consequenceHypothesis
      alternativeHypothesis =>
      -- The layout is cut before the jump that ends the consequence.
      have jumpHolds := holds.right
      have jumpAt :
          offset +
              codeSize
                (⟨.jumpNotTruthy,
                    [offset + jumpSize + consequence.size + jumpSize]⟩ ::
                  consequence.layout (offset + jumpSize)) =
            offset + jumpSize + consequence.size := by
        rw [codeSize_cons, codeSize_layout, ← Nat.add_assoc]
        rfl
      rw [jumpAt] at jumpHolds
      have consequenceReaches (after : Machine) :
          bytecode.Reaches (offset + jumpSize) after
            (offset + jumpSize + consequence.size)
            (consequence.execute bytecode.constants (offset + jumpSize)
              after) :=
        consequenceHypothesis straight.1 holds.left.tail after
      have alternativeReaches :=
        alternativeHypothesis straight.2 jumpHolds.tail
      have finishAt :
          offset + (Plan.choice consequence alternative).size =
            offset + jumpSize + consequence.size + jumpSize +
              alternative.size := by
        simp only [size]
        omega
      rw [finishAt]
      refine .jumpNotTruthy holds.left.fetch ?_ alternativeReaches
      intro after
      have chosen := consequenceReaches after
      cases shape :
          consequence.execute bytecode.constants (offset + jumpSize)
            after with
      | ok _ afterConsequence =>
          rw [shape] at chosen
          exact chosen.trans (.jump jumpHolds.fetch afterConsequence)
      | error error afterConsequence =>
          rw [shape] at chosen
          exact chosen.failed

/-- The end of a run with a result. -/
def Progress.ofResult : EStateM.Result RuntimeError Machine PUnit → Progress
  | .ok _ machine =>
      .finished machine
  | .error error machine =>
      .failed error machine

section Ends

variable {plan : Plan} {bytecode : Bytecode}
variable (straight : plan.Straight)
variable (consists : bytecode.code.Consists (plan.layout 0))

include straight consists

/-- Code that consists of a plan is run by executing the plan. -/
theorem Plan.run_eq (machine : Machine) :
    ∃ steps, ∀ fuel, steps ≤ fuel →
      bytecode.run fuel machine =
        .ofResult (plan.execute bytecode.constants 0 machine) := by
  have atEnd := consists.fetch_end
  obtain ⟨steps, runs⟩ :=
    plan.execute_reaches straight consists.holds machine
  refine ⟨steps + 1, fun fuel enough => ?_⟩
  obtain ⟨spare, rfl⟩ := Nat.exists_eq_add_of_le enough
  rw [Bytecode.run, Nat.add_assoc, runs]
  cases plan.execute bytecode.constants 0 machine with
  | ok _ after =>
      rw [codeSize_layout] at atEnd
      simp [Nat.add_comm 1 spare, Bytecode.runFrom, Bytecode.step, atEnd,
        Progress.ofResult]
  | error error after =>
      rfl

/-- A run that has ended has executed its plan. -/
theorem Plan.run_of_ended
    {fuel : Nat} {machine : Machine}
    (ended : (bytecode.run fuel machine).HasEnded) :
    bytecode.run fuel machine =
      .ofResult (plan.execute bytecode.constants 0 machine) := by
  obtain ⟨enough, runs⟩ := plan.run_eq straight consists machine
  rw [← runs (max fuel enough) (Nat.le_max_right _ _)]
  exact (Bytecode.runFrom_of_ended (Nat.le_max_left fuel enough) ended).symm

/-- A run that finishes has executed its plan to the end. -/
theorem Plan.execute_of_finished
    {fuel : Nat} {start finished : Machine}
    (finishes : bytecode.run fuel start = .finished finished) :
    plan.execute bytecode.constants 0 start = .ok () finished := by
  have executes :=
    plan.run_of_ended straight consists
      (Progress.hasEnded_of_finished finishes)
  rw [finishes] at executes
  cases executed : plan.execute bytecode.constants 0 start with
  | ok _ machine =>
      rw [executed] at executes
      cases executes
      rfl
  | error error machine =>
      rw [executed] at executes
      cases executes

/-- A run that fails has executed its plan up to an error. -/
theorem Plan.execute_of_failed
    {fuel : Nat} {start failedOn : Machine} {error : RuntimeError}
    (fails : bytecode.run fuel start = .failed error failedOn) :
    plan.execute bytecode.constants 0 start = .error error failedOn := by
  have ended : (bytecode.run fuel start).HasEnded := by
    rw [fails]
    trivial
  have executes := plan.run_of_ended straight consists ended
  rw [fails] at executes
  cases executed : plan.execute bytecode.constants 0 start with
  | ok _ machine =>
      rw [executed] at executes
      cases executes
  | error raised machine =>
      rw [executed] at executes
      cases executes
      rfl

end Ends

end StackLang
