import StackLang.Code.Listing
import StackLang.Proofs.Machine.Safety
import StackLang.Proofs.Machine.Writes

namespace StackLang

/-!
# Histories in memory

A run in memory goes through stages. What it has executed and what it has
written is read off them: the instruction that is fetched in memory at a stage,
and the topmost cell in use if this instruction writes a variable. The history
is that of the machine's own run.
-/

/-- An offset that a run in memory comes to, and memory as it is then. -/
structure MemoryStage where
  offset : Nat
  memory : Memory

/-- The stage that the machine's own run comes to. -/
def MemoryStage.stage (stage : MemoryStage) : Stage where
  offset := stage.offset
  machine := stage.memory.machine

/-- The topmost value in memory is that of the machine there. -/
theorem Memory.top?_eq {memory : Memory} (fits : memory.Fits) :
    MemoryM.top? memory = .ok memory.machine.top? memory := by
  simp only [MemoryM.top?, bind_get, Machine.top?, Array.back?_eq_getElem?,
    memory.size_stack_machine fits]
  by_cases isEmpty : memory.used = 0
  · have noValue : memory.machine.stack[memory.used - 1]? = none := by
      rw [Array.getElem?_eq_none_iff, memory.size_stack_machine fits]
      exact Nat.le_of_eq (by rw [isEmpty])
    rw [if_pos isEmpty, noValue]
    rfl
  · have inUse : memory.used - 1 < memory.used := Nat.sub_one_lt isEmpty
    have inside : memory.used - 1 < memory.cells.size :=
      Nat.lt_of_lt_of_le inUse fits
    rw [if_neg isEmpty, memory.getElem?_stack_machine inUse]
    simp only [bind_get, MemoryM.readAt, Array.getElem?_eq_getElem inside]
    rfl

namespace Bytecode

variable {bytecode : Bytecode} {offset : Nat} {memory : Memory}

/-- The stages of a run in memory from an offset, at most `fuel` of them. -/
def stagesInMemoryFrom (bytecode : Bytecode) :
    (fuel offset : Nat) → Memory → List MemoryStage
  | 0, _, _ =>
      []
  | fuel + 1, offset, memory =>
      ⟨offset, memory⟩ ::
        match bytecode.stepInMemory offset memory with
        | .running offset memory =>
            bytecode.stagesInMemoryFrom fuel offset memory
        | _ =>
            []

/-- The stages of a run in memory from the start of the code. -/
def stagesInMemory (bytecode : Bytecode) (fuel : Nat) (memory : Memory) :
    List MemoryStage :=
  bytecode.stagesInMemoryFrom fuel 0 memory

/-- What is read off the stages of a run in memory is what is read off those of
the machine's own run, if it is the same at each stage. -/
theorem filterMap_stagesInMemoryFrom
    {β : Type} {read? : MemoryStage → Option β} {own? : Stage → Option β}
    (agree :
      ∀ stage, stage.memory.Fits → read? stage = own? stage.stage)
    (fuel : Nat) (fits : memory.Fits) :
    (bytecode.stagesInMemoryFrom fuel offset memory).filterMap read? =
      (bytecode.stagesFrom fuel offset memory.machine).filterMap own? := by
  induction fuel generalizing offset memory with
  | zero =>
      rfl
  | succ fuel inductionHypothesis =>
      have first : read? ⟨offset, memory⟩ = own? ⟨offset, memory.machine⟩ :=
        agree ⟨offset, memory⟩ fits
      obtain ⟨same, fitsAfter⟩ := bytecode.stepInMemory_shows offset fits
      rw [stagesInMemoryFrom, stagesFrom, List.filterMap_cons,
        List.filterMap_cons, first]
      cases shown : bytecode.stepInMemory offset memory with
      | running target after =>
          rw [shown] at same fitsAfter
          have fitsThere : after.Fits := fitsAfter
          simp only [← Option.some.inj same, inductionHypothesis fitsThere]
      | finished after | failed error after =>
          rw [shown] at same
          rw [← Option.some.inj same]
          rfl
      | outOfBounds after =>
          rw [shown] at same
          cases same

/-- The instruction that is fetched in memory at a stage. -/
def fetchedInMemory? (bytecode : Bytecode) (stage : MemoryStage) :
    Option Line :=
  match MemoryM.fetch bytecode.code stage.offset stage.memory with
  | .ok (instr, _) _ =>
      some ⟨stage.offset, instr⟩
  | .error _ _ =>
      none

/-- The instruction that is fetched at a stage. -/
def fetched? (bytecode : Bytecode) (stage : Stage) : Option Line :=
  match bytecode.code.fetch stage.offset with
  | .instr instr _ =>
      some ⟨stage.offset, instr⟩
  | _ =>
      none

/-- The instructions that a run in memory of at most `fuel` steps comes to, the
one that fails included. -/
def executedInMemory (bytecode : Bytecode) (fuel : Nat) (memory : Memory) :
    List Line :=
  (bytecode.stagesInMemory fuel memory).filterMap bytecode.fetchedInMemory?

/-- A run in memory comes to the instructions that the machine's own run comes
to. -/
theorem executedInMemory_eq (fuel : Nat) (fits : memory.Fits) :
    bytecode.executedInMemory fuel memory =
      (bytecode.stages fuel memory.machine).filterMap bytecode.fetched? := by
  refine filterMap_stagesInMemoryFrom (fun stage _ => ?_) fuel fits
  rw [fetchedInMemory?, fetched?, MemoryM.fetch_eq, MemoryStage.stage]
  cases bytecode.code.fetch stage.offset <;> rfl

/-- What is written at a stage of a run in memory: the topmost value, to the
slot that the instruction names. -/
def writeInMemory? (bytecode : Bytecode) (stage : MemoryStage) :
    Option Write :=
  match MemoryM.fetch bytecode.code stage.offset stage.memory,
      MemoryM.top? stage.memory with
  | .ok (instr, _) _, .ok (some value) _ =>
      if instr.opcode = .setGlobal then
        some ⟨stage.offset, instr.operand, value⟩
      else
        none
  | _, _ =>
      none

/-- What a run in memory of at most `fuel` steps writes, in its order. -/
def writesInMemory (bytecode : Bytecode) (fuel : Nat) (memory : Memory) :
    List Write :=
  (bytecode.stagesInMemory fuel memory).filterMap bytecode.writeInMemory?

/-- A run in memory makes the writes of the machine's own run. -/
theorem writesInMemory_eq (fuel : Nat) (fits : memory.Fits) :
    bytecode.writesInMemory fuel memory =
      bytecode.writes fuel memory.machine := by
  refine filterMap_stagesInMemoryFrom (fun stage fitsThere => ?_) fuel fits
  rw [writeInMemory?, write?, MemoryM.fetch_eq, Memory.top?_eq fitsThere,
    MemoryStage.stage]
  cases bytecode.code.fetch stage.offset with
  | past | undecodable source =>
      rfl
  | instr instr next =>
      cases stage.memory.machine.top? <;> simp

end Bytecode

end StackLang
