import StackLang.Machine.Memory
import StackLang.Proofs.Instr.Decoding
import StackLang.Proofs.Machine.Operations

namespace StackLang

open MemoryM

/-!
# Machines in memory

Memory has a machine in it, and every step in memory does to this machine what
the machine's own step does: it gives the same answer or fails in the same way,
and leaves the same machine. A step that begins with no more cells in use than
there are makes no access out of bounds, and ends in this way too.
-/

section Cells

variable {cells : Array Value} {used : Nat}

/-- Writing the first free cell, and taking it into use, pushes a value. -/
theorem extract_setIfInBounds (free : used < cells.size) (value : Value) :
    (cells.setIfInBounds used value).extract 0 (used + 1) =
      (cells.extract 0 used).push value := by
  have stillFree : used < (cells.set used value).size := by
    rwa [Array.size_set]
  rw [Array.setIfInBounds, dif_pos free,
    Array.extract_succ_right (Nat.succ_pos used) stillFree,
    Array.getElem_set_self, Array.extract_set, dif_neg (Nat.not_lt_zero used),
    dif_neg (by omega)]

/-- Giving up the last cell in use pops a value. -/
theorem pop_extract (bounded : used ≤ cells.size) :
    (cells.extract 0 used).pop = cells.extract 0 (used - 1) := by
  have sizes : used - 1 = (cells.extract 0 used).size - 1 := by
    rw [Array.size_extract, Nat.sub_zero, Nat.min_eq_left bounded]
  rw [← Array.extract_eq_pop sizes, Array.extract_extract, Nat.zero_add,
    Nat.zero_add, Nat.min_eq_left (Nat.sub_le used 1)]

end Cells

namespace Memory

variable {memory : Memory}

/-- The stack that lies in memory is as high as there are cells in use. -/
@[simp] theorem size_stack_machine (fits : memory.Fits) :
    memory.machine.stack.size = memory.used := by
  rw [machine, Array.size_extract, Nat.sub_zero, Nat.min_eq_left fits]

/-- A cell in use holds the value at its index on the stack. -/
theorem getElem?_stack_machine {index : Nat} (inUse : index < memory.used) :
    memory.machine.stack[index]? = memory.cells[index]? := by
  rw [machine, Array.getElem?_extract]
  split
  case isTrue =>
    rw [Nat.zero_add]
  case isFalse outside =>
    rw [Array.getElem?_eq_none (by omega)]

end Memory

namespace MemoryM

variable {memory : Memory} {value : Value}

/-- A value is written to the first free cell. -/
theorem push_of_free (free : memory.used < memory.cells.size) :
    push value memory =
      .ok ()
        { memory with
          cells := memory.cells.setIfInBounds memory.used value
          used := memory.used + 1 } := by
  have notFull : ¬ memory.cells.size ≤ memory.used := Nat.not_le.mpr free
  have written :
      writeCell memory.used value memory =
        .ok ()
          { memory with
            cells := memory.cells.setIfInBounds memory.used value } := by
    simp only [writeCell, bind_get, if_pos free]
    rfl
  simp only [push, bind_get, if_neg notFull]
  rw [bind_of_ok written]
  rfl

/-- Without a free cell, a push leaves memory as it is. -/
theorem push_of_full (full : memory.cells.size ≤ memory.used) :
    push value memory =
      .error (.failed ⟨memory.current, .stackOverflow⟩) memory := by
  simp only [push, bind_get, if_pos full]
  rfl

/-- A value is read from the last cell in use. -/
theorem pop_of_used
    (isUsed : memory.used ≠ 0) (inside : memory.used - 1 < memory.cells.size) :
    pop memory =
      .ok memory.cells[memory.used - 1]
        { memory with used := memory.used - 1 } := by
  simp only [pop, bind_get, if_neg isUsed, bind_modify, readAt,
    Array.getElem?_eq_getElem inside, pure_apply]

/-- With no cell in use, a pop leaves memory as it is. -/
theorem pop_of_empty (isEmpty : memory.used = 0) :
    pop memory =
      .error (.failed ⟨memory.current, .stackUnderflow⟩) memory := by
  simp only [pop, bind_get, if_pos isEmpty]
  rfl

/-- A variable is written after the store has grown to have its slot. -/
theorem setGlobal_eq (slot : Nat) :
    setGlobal slot value memory =
      .ok ()
        { memory with globals := storeGlobal memory.globals slot value } := by
  simp only [setGlobal, bind_get, storeGlobal]
  by_cases known : slot < memory.globals.size
  · simp only [if_neg (Nat.not_le.mpr known), writeSlot, bind_get,
      if_pos known]
    rfl
  · have grown :
        (memory.globals ++
            Array.replicate (slot + 1 - memory.globals.size)
              Value.null).setIfInBounds slot value =
          (memory.globals ++
            Array.replicate (slot - memory.globals.size)
              Value.null).push value := by
      have unknown := Nat.le_of_not_lt known
      rw [Nat.succ_sub unknown, Array.replicate_succ,
        Array.setIfInBounds_append_right unknown, Array.setIfInBounds,
        dif_pos (by simp), Array.set_push, dif_neg (by simp),
        Array.push_append]
    have grownSize :
        slot <
          (memory.globals ++
            Array.replicate (slot + 1 - memory.globals.size)
              Value.null).size := by
      rw [Array.size_append, Array.size_replicate]
      omega
    simp only [if_pos (Nat.le_of_not_lt known), if_neg known, bind_modify,
      writeSlot, bind_get, if_pos grownSize, ← grown]
    rfl

end MemoryM

/-- What a step in memory ends in, beside what the machine's own step ends in. -/
inductive Mirrors (current : Nat) {α : Type} :
    EStateM.Result Abort Memory α → EStateM.Result Fault Machine α → Prop
  | ok (value : α) {after : Memory} (fits : after.Fits)
      (keeps : after.current = current) :
      Mirrors current (.ok value after) (.ok value after.machine)
  | failed (fault : Fault) {after : Memory} (fits : after.Fits)
      (keeps : after.current = current) :
      Mirrors current (.error (.failed ⟨current, fault⟩) after)
        (.error fault after.machine)

/-- A step in memory does to the machine there what the machine's own step
does. -/
def Implements {α : Type} (step : MemoryM α) (own : MachineM α) : Prop :=
  ∀ memory : Memory, memory.Fits →
    Mirrors memory.current (step memory) (own memory.machine)

namespace Implements

variable {α β : Type}

theorem pure (value : α) :
    Implements (Pure.pure value) (Pure.pure value : MachineM α) :=
  fun _ fits => .ok value fits rfl

theorem fail (fault : Fault) :
    Implements (MemoryM.fail fault : MemoryM α) (throw fault) :=
  fun _ fits => .failed fault fits rfl

/-- One step after another does what the machine's steps do one after another. -/
theorem bind
    {step : MemoryM α} {own : MachineM α}
    {next : α → MemoryM β} {ownNext : α → MachineM β}
    (implements : Implements step own)
    (nextImplements : ∀ value, Implements (next value) (ownNext value)) :
    Implements (step >>= next) (own >>= ownNext) := by
  intro memory fits
  have mirrors := implements memory fits
  simp only [Bind.bind, EStateM.bind]
  cases shape : step memory with
  | ok value after =>
      rw [shape] at mirrors
      generalize own memory.machine = ends at mirrors
      cases mirrors with
      | ok _ fitsAfter keeps =>
          rw [← keeps]
          exact nextImplements value after fitsAfter
  | error stop after =>
      rw [shape] at mirrors
      generalize own memory.machine = ends at mirrors
      cases mirrors with
      | failed fault fitsAfter keeps =>
          exact .failed fault fitsAfter keeps

theorem push (value : Value) :
    Implements (MemoryM.push value) (MachineM.push value) := by
  intro memory fits
  have height := memory.size_stack_machine fits
  by_cases free : memory.used < memory.cells.size
  · have pushed :
        MachineM.push value memory.machine =
          .ok ()
            (Memory.machine
              { memory with
                cells := memory.cells.setIfInBounds memory.used value
                used := memory.used + 1 }) := by
      have room : memory.machine.stack.size < memory.machine.capacity := by
        rw [height]
        exact free
      refine MachineM.push_eq_ok_iff.mpr ⟨room, ?_⟩
      simp only [Memory.machine, Array.size_setIfInBounds,
        extract_setIfInBounds free]
    rw [MemoryM.push_of_free free, pushed]
    refine .ok () ?_ rfl
    rw [Memory.Fits, Array.size_setIfInBounds]
    exact free
  · have full : memory.cells.size ≤ memory.used := Nat.le_of_not_lt free
    have overflown :
        MachineM.push value memory.machine =
          .error .stackOverflow memory.machine := by
      refine MachineM.push_eq_error_iff.mpr ⟨?_, rfl, rfl⟩
      rw [height]
      exact full
    rw [MemoryM.push_of_full full, overflown]
    exact .failed .stackOverflow fits rfl

theorem pop : Implements MemoryM.pop MachineM.pop := by
  intro memory fits
  have height := memory.size_stack_machine fits
  by_cases isEmpty : memory.used = 0
  · have underflown :
        MachineM.pop memory.machine =
          .error .stackUnderflow memory.machine := by
      refine MachineM.pop_eq_error_iff.mpr ⟨?_, rfl, rfl⟩
      rw [← Array.size_eq_zero_iff, height, isEmpty]
    rw [MemoryM.pop_of_empty isEmpty, underflown]
    exact .failed .stackUnderflow fits rfl
  · have bounded : memory.used ≤ memory.cells.size := fits
    have inUse : memory.used - 1 < memory.cells.size := by
      omega
    have popped :
        MachineM.pop memory.machine =
          .ok memory.cells[memory.used - 1]
            (Memory.machine { memory with used := memory.used - 1 }) := by
      refine MachineM.pop_eq_ok_iff.mpr ⟨?_, ?_⟩
      · rw [Array.back?_eq_getElem?, height,
          memory.getElem?_stack_machine (by omega), Array.getElem?_eq_getElem]
      · simp only [Memory.machine, pop_extract fits]
    rw [MemoryM.pop_of_used isEmpty inUse, popped]
    exact .ok _ (Nat.le_trans (Nat.sub_le _ 1) bounded) rfl

theorem popInts (opcode : Opcode) :
    Implements (MemoryM.popInts opcode) (MachineM.popInts opcode) := by
  refine pop.bind fun right => pop.bind fun left => ?_
  cases left with
  | int left =>
      cases right with
      | int right =>
          exact pure _
      | bool truth =>
          exact fail _
      | null =>
          exact fail _
  | bool truth =>
      exact fail _
  | null =>
      exact fail _

theorem setLastPopped (value : Value) :
    Implements (MemoryM.setLastPopped value)
      (MachineM.setLastPopped value) :=
  fun _ fits => .ok () fits rfl

theorem setGlobal (slot : Nat) (value : Value) :
    Implements (MemoryM.setGlobal slot value)
      (MachineM.setGlobal slot value) := by
  intro memory fits
  rw [MemoryM.setGlobal_eq]
  exact .ok () fits rfl

theorem getGlobal (slot : Nat) :
    Implements (MemoryM.getGlobal slot) (MachineM.getGlobal slot) := by
  intro memory fits
  simp only [MemoryM.getGlobal, MachineM.getGlobal, bind_get,
    Memory.machine]
  cases memory.globals[slot]? with
  | some value =>
      exact .ok value fits rfl
  | none =>
      exact .failed (.undefinedGlobal slot) fits rfl

/-- Two integers are replaced by their combination. -/
theorem combine
    (opcode : Opcode) (operation : Int64 → Int64 → Value) (next : Nat) :
    Implements
      (do
        MemoryM.combine opcode operation
        return next)
      (do
        let (left, right) ← MachineM.popInts opcode
        MachineM.push (operation left right)
        return next) := by
  simp only [MemoryM.combine, bind_assoc]
  exact (popInts opcode).bind fun _ => (push _).bind fun _ => pure next

/-- Two values are replaced by how they compare. -/
theorem compare (holds : Value → Value → Bool) (next : Nat) :
    Implements
      (do
        MemoryM.compare holds
        return next)
      (do
        let right ← MachineM.pop
        let left ← MachineM.pop
        MachineM.push (.bool (holds left right))
        return next) := by
  simp only [MemoryM.compare, bind_assoc]
  exact pop.bind fun _ => pop.bind fun _ => (push _).bind fun _ => pure next

end Implements

/-- The operand of an instruction that takes one, which fits in two bytes. -/
theorem Instr.Encodable.exists_operand
    {instr : Instr} (encodable : instr.Encodable)
    (takesOne : instr.opcode.operandWidths = [2]) :
    ∃ operand < 65536, instr.operands = [operand] := by
  obtain ⟨sameLength, fits⟩ := encodable_iff.mp encodable
  rw [takesOne] at sameLength fits
  obtain ⟨operand, isOperand⟩ := List.length_eq_one_iff.mp sameLength
  rw [isOperand] at fits
  exact ⟨operand, fits (operand, 2) (List.mem_singleton_self _), isOperand⟩

/-- The operand of an instruction that takes one is there to be read. -/
theorem Instr.Encodable.firstOperand_eq
    {instr : Instr} (encodable : instr.Encodable)
    (takesOne : instr.opcode.operandWidths = [2]) :
    firstOperand instr = pure instr.operand := by
  obtain ⟨operand, _, isOperand⟩ := encodable.exists_operand takesOne
  rw [firstOperand, Instr.operand, isOperand]
  rfl

/-- An instruction that can be encoded does in memory what it does to the
machine there. -/
theorem Instr.executeInMemory_implements
    {instr : Instr} (encodable : instr.Encodable)
    (constants : Array Value) (next : Nat) :
    Implements (instr.executeInMemory constants next)
      (instr.execute constants next) := by
  have pushes (value : Value) :
      Implements
        (do
          MemoryM.push value
          return next)
        (do
          MachineM.push value
          return next) :=
    (Implements.push value).bind fun _ => .pure next
  have fails (fault : Fault) :
      Implements
        (do
          MemoryM.fail (α := PUnit) fault
          return next)
        (do
          throw fault
          return next) :=
    (Implements.fail fault).bind fun _ => .pure next
  have operandRead := encodable.firstOperand_eq
  obtain ⟨opcode, operands⟩ := instr
  cases opcode with
  | constant =>
      simp only [executeInMemory, execute, operandRead rfl, pure_bind]
      cases constants[Instr.operand ⟨.constant, operands⟩]? with
      | some value =>
          exact pushes value
      | none =>
          exact fails _
  | pop =>
      exact Implements.pop.bind fun value =>
        (Implements.setLastPopped value).bind fun _ => .pure next
  | add | sub | mul | greaterThan =>
      exact .combine _ _ next
  | div =>
      refine (Implements.popInts .div).bind fun operands => ?_
      by_cases isZero : operands.2 = 0
      · simp only [if_pos isZero]
        exact fails _
      · simp only [if_neg isZero]
        exact pushes _
  | equal | notEqual =>
      exact .compare _ next
  | bang =>
      exact Implements.pop.bind fun _ => pushes _
  | minus =>
      refine Implements.pop.bind fun operand => ?_
      cases operand with
      | int number =>
          exact pushes _
      | bool truth =>
          exact fails _
      | null =>
          exact fails _
  | pushTrue | pushFalse | pushNull =>
      exact pushes _
  | jump =>
      simp only [executeInMemory, execute, operandRead rfl]
      exact .pure _
  | jumpNotTruthy =>
      refine Implements.pop.bind fun condition => ?_
      by_cases truthy : condition.isTruthy = true
      · simp only [if_pos truthy]
        exact .pure next
      · simp only [if_neg truthy, operandRead rfl]
        exact .pure _
  | setGlobal =>
      refine Implements.pop.bind fun value => ?_
      simp only [operandRead rfl, pure_bind]
      exact (Implements.setGlobal _ value).bind fun _ => .pure next
  | getGlobal =>
      simp only [executeInMemory, execute, operandRead rfl, pure_bind]
      exact (Implements.getGlobal _).bind fun value => pushes value

end StackLang
