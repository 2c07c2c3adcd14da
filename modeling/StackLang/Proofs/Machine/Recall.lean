import StackLang.Proofs.Compilation.Plan
import StackLang.Proofs.Machine.MemoryHistory

namespace StackLang

open MemoryM

/-!
# What variables hold

What the variables hold at a point of a run follows from what they held at its
start and from the writes that it has made. A variable has the value that was
written to it last. One that was not written has the value from before the run;
if there was none, it has null when a slot behind it was written, and is
undefined otherwise. The store reaches to the highest slot that it ever had.
-/

/-- The value that was written last to a slot. -/
def lastWritten? (writes : List Write) (slot : Nat) : Option Value :=
  (writes.filter (·.slot = slot)).getLast?.map Write.value

/-- What a variable has after writes to a store, unless it is undefined. -/
def recalled? (globals : Array Value) (writes : List Write) (slot : Nat) :
    Option Value :=
  match lastWritten? writes slot with
  | some value =>
      some value
  | none =>
      if slot < globals.size then
        globals[slot]?
      else if ∃ write ∈ writes, slot < write.slot then
        some .null
      else
        none

section Slots

variable {globals : Array Value} {writes : List Write} {slot : Nat}

/-- No value was written last to a slot that was not written. -/
theorem lastWritten?_eq_none_iff :
    lastWritten? writes slot = none ↔ ∀ write ∈ writes, write.slot ≠ slot := by
  simp [lastWritten?]

/-- The value that was written last is that of the last write to the slot. -/
theorem exists_last_write
    {value : Value} (last : lastWritten? writes slot = some value) :
    ∃ earlier write later,
      writes = earlier ++ write :: later ∧
        write.slot = slot ∧ write.value = value ∧
        ∀ other ∈ later, other.slot ≠ slot := by
  obtain ⟨write, isLast, isValue⟩ := Option.map_eq_some_iff.mp last
  obtain ⟨found, ends⟩ := List.getLast?_eq_some_iff.mp isLast
  obtain ⟨before, rest, rfl, _, restFound⟩ := List.filter_eq_append_iff.mp ends
  obtain ⟨others, later, rfl, _, isSlot, noneFound⟩ :=
    List.filter_eq_cons_iff.mp restFound
  refine ⟨before ++ others, write, later, (List.append_assoc ..).symm,
    of_decide_eq_true isSlot, isValue, ?_⟩
  simpa using noneFound

/-- After writes, a slot has what is recalled of it. -/
theorem getElem?_applyWrites :
    (applyWrites globals writes)[slot]? = recalled? globals writes slot := by
  rw [recalled?]
  cases last : lastWritten? writes slot with
  | some value =>
      obtain ⟨earlier, write, later, rfl, rfl, rfl, unwritten⟩ :=
        exists_last_write last
      exact getElem?_applyWrites_of_last unwritten
  | none =>
      rw [getElem?_applyWrites_of_unwritten (lastWritten?_eq_none_iff.mp last)]
      by_cases known : slot < globals.size
      · simp [known]
      · simp [known]

/-- After writes, a store reaches to the highest slot that it ever had. -/
theorem size_applyWrites :
    (applyWrites globals writes).size =
      (writes.map (·.slot + 1)).foldl max globals.size := by
  induction writes generalizing globals with
  | nil =>
      rfl
  | cons write rest inductionHypothesis =>
      rw [applyWrites, List.foldl_cons, ← applyWrites, inductionHypothesis,
        size_storeGlobal, List.map_cons, List.foldl_cons]

end Slots

section Reads

variable {memory : Memory} {slot : Nat}

/-- A variable is read where it is defined. -/
theorem getGlobal_of_defined
    {value : Value} (defined : memory.globals[slot]? = some value) :
    getGlobal slot memory = .ok value memory := by
  simp only [getGlobal, bind_get, defined]
  rfl

/-- A variable that is not defined is not read. -/
theorem getGlobal_of_undefined
    (undefined : memory.globals[slot]? = none) :
    getGlobal slot memory =
      .error (.failed ⟨memory.current, .undefinedGlobal slot⟩) memory := by
  simp only [getGlobal, bind_get, undefined]
  rfl

end Reads

namespace Bytecode

variable {bytecode : Bytecode} {offset next slot : Nat}

/-- A variable is found to have a value. The instruction at the offset pushes
this, if there is a free cell, and leaves the rest of memory as it is. -/
structure FindsInMemory
    (bytecode : Bytecode) (offset next slot : Nat) (memory : Memory)
    (value : Value) : Prop where
  found : getGlobal slot memory = .ok value memory
  pushed :
    bytecode.stepInMemory offset memory =
      if memory.used < memory.cells.size then
        .running next
          { memory with
            cells := memory.cells.setIfInBounds memory.used value
            used := memory.used + 1
            current := offset }
      else
        .failed ⟨offset, .stackOverflow⟩ { memory with current := offset }

/-- A read in memory fetches the variable, and then pushes its value. If there
is none it fails, and pushes nothing. -/
theorem stepInMemory_of_read
    (memory : Memory)
    (fetched :
      bytecode.code.fetch offset = .instr ⟨.getGlobal, [slot]⟩ next) :
    match memory.globals[slot]? with
    | some value =>
        bytecode.FindsInMemory offset next slot memory value
    | none =>
        bytecode.stepInMemory offset memory =
          .failed ⟨offset, .undefinedGlobal slot⟩
            { memory with current := offset } := by
  have inside := Code.lt_size_of_fetch fetched
  have isNext : next = offset + 1 + 2 := Code.next_of_fetch fetched
  let located : Memory := { memory with current := offset }
  have executed :
      bytecode.executeAt offset memory =
        (do
          push (← getGlobal slot)
          return next : MemoryM Nat) located := by
    have instrFetched :
        MemoryM.fetch bytecode.code offset located =
          .ok (⟨.getGlobal, [slot]⟩, 2) located := by
      rw [MemoryM.fetch_eq, fetched]
      rfl
    rw [executeAt, bind_modify, bind_of_ok instrFetched, isNext]
    rfl
  cases present : memory.globals[slot]? with
  | none =>
      have missed :
          getGlobal slot located =
            .error (.failed ⟨offset, .undefinedGlobal slot⟩) located :=
        getGlobal_of_undefined present
      simp only [stepInMemory, if_pos inside, executed]
      rw [bind_of_error missed]
  | some value =>
      have found : getGlobal slot located = .ok value located :=
        getGlobal_of_defined present
      refine ⟨getGlobal_of_defined present, ?_⟩
      simp only [stepInMemory, if_pos inside, executed]
      rw [bind_of_ok found]
      -- The value is pushed on memory that already names the instruction.
      by_cases free : memory.used < memory.cells.size
      · have pushed : push value located = .ok () _ := push_of_free free
        rw [bind_of_ok pushed, if_pos free]
        rfl
      · have overflown : push value located = .error _ located :=
          push_of_full (Nat.le_of_not_lt free)
        rw [bind_of_error overflown, if_neg free]

/-- Only a read of a slot fails for this slot being undefined. -/
theorem fetch_of_step_undefined
    {place : Nat} {machine after : Machine}
    (failed :
      bytecode.step offset machine =
        .failed ⟨place, .undefinedGlobal slot⟩ after) :
    ∃ next, bytecode.code.fetch offset = .instr ⟨.getGlobal, [slot]⟩ next := by
  obtain ⟨_, ⟨source, isDecode⟩ | ⟨instr, next, fetched, executed⟩⟩ :=
    exists_of_step_failed failed
  · cases isDecode
  · have reads : instr.opcode = .getGlobal := by
      refine Decidable.byContradiction fun noRead => ?_
      exact instr.execute_neverUndefined noRead _ _ _ _ _ executed
    obtain ⟨operand, _, isOperand⟩ :=
      (Code.drop_of_fetch fetched).1.exists_operand (by rw [reads]; rfl)
    obtain ⟨opcode, operands⟩ := instr
    subst reads isOperand
    rcases bind_eq_error_iff.mp executed with missed | ⟨value, _, _, pushed⟩
    · obtain ⟨_, isSlot, _⟩ := MachineM.getGlobal_eq_error_iff.mp missed
      cases isSlot
      exact ⟨next, fetched⟩
    · rcases bind_eq_error_iff.mp pushed with overflown | ⟨_, _, _, ⟨⟩⟩
      obtain ⟨_, isOverflow, _⟩ := MachineM.push_eq_error_iff.mp overflown
      cases isOverflow

/-- A step in memory that fails for a slot being undefined is a read of it, and
leaves it undefined. -/
theorem undefined_of_stepInMemory
    {memory after : Memory} (fits : memory.Fits)
    (stops :
      bytecode.stepInMemory offset memory =
        .failed ⟨offset, .undefinedGlobal slot⟩ after) :
    after.globals[slot]? = none ∧
      ∃ next,
        bytecode.code.fetch offset = .instr ⟨.getGlobal, [slot]⟩ next := by
  obtain ⟨next, fetched⟩ :=
    fetch_of_step_undefined (step_of_failedInMemory fits stops).1
  refine ⟨?_, next, fetched⟩
  have read := stepInMemory_of_read memory fetched
  cases found : memory.globals[slot]? with
  | some value =>
      rw [found] at read
      have pushed := read.pushed
      rw [stops] at pushed
      split at pushed <;> cases pushed
  | none =>
      rw [found] at read
      rw [stops] at read
      cases read
      exact found

/-- The variables at a point of a run are what is recalled from the writes that
the run has made. -/
structure RecallsWrites
    (bytecode : Bytecode) (start : Memory) (fuel : Nat) : Prop where
  /-- The store reaches to the highest slot that it had or that was written. -/
  size :
    (bytecode.runInMemory fuel start).memory.globals.size =
      ((bytecode.writesInMemory fuel start).map (·.slot + 1)).foldl max
        start.globals.size
  holds :
    ∀ slot,
      (bytecode.runInMemory fuel start).memory.globals[slot]? =
        recalled? start.globals (bytecode.writesInMemory fuel start) slot
  /-- Where the run comes to a read, it finds what is recalled of the slot, and
  fails if that is nothing. -/
  reads :
    ∀ offset next slot reached,
      bytecode.runInMemory fuel start = .running offset reached →
      bytecode.code.fetch offset = .instr ⟨.getGlobal, [slot]⟩ next →
      match
        recalled? start.globals (bytecode.writesInMemory fuel start) slot
      with
      | some value =>
          bytecode.FindsInMemory offset next slot reached value
      | none =>
          bytecode.stepInMemory offset reached =
            .failed ⟨offset, .undefinedGlobal slot⟩
              { reached with current := offset }
  /-- A run fails for an undefined slot in no other way. -/
  undefined :
    ∀ offset slot after,
      bytecode.runInMemory fuel start =
        .failed ⟨offset, .undefinedGlobal slot⟩ after →
      recalled? start.globals (bytecode.writesInMemory fuel start) slot = none ∧
        ∃ next,
          bytecode.code.fetch offset = .instr ⟨.getGlobal, [slot]⟩ next

/-- A run in memory leaves the variables with its writes made in their order. -/
theorem globals_runInMemory
    {memory : Memory} (fuel : Nat) (fits : memory.Fits) :
    (bytecode.runInMemory fuel memory).memory.globals =
      applyWrites memory.globals (bytecode.writesInMemory fuel memory) := by
  have same := (bytecode.runInMemory_shows fuel fits).machine_eq
  rw [writesInMemory_eq fuel fits]
  exact (congrArg Machine.globals same).trans
    (bytecode.globals_runFrom 0 memory.machine fuel)

end Bytecode

/-- Whatever bytes are run, with any variables to begin with: at every point of
the run the variables are what is recalled from its writes. -/
theorem variables_recall_writes
    {bytecode : Bytecode} {start : Memory}
    (fits : start.used ≤ start.cells.size) (fuel : Nat) :
    bytecode.RecallsWrites start fuel := by
  have globals := bytecode.globals_runInMemory fuel fits
  have holds (slot : Nat) :
      (bytecode.runInMemory fuel start).memory.globals[slot]? =
        recalled? start.globals (bytecode.writesInMemory fuel start) slot := by
    rw [globals, getElem?_applyWrites]
  refine
    { size := ?size
      holds := holds
      reads := ?reads
      undefined := ?undefined }
  case size =>
    rw [globals, size_applyWrites]
  case reads =>
    intro offset next slot reached running fetched
    have present := holds slot
    rw [running] at present
    rw [← present]
    exact Bytecode.stepInMemory_of_read reached fetched
  case undefined =>
    intro offset slot after failed
    obtain ⟨_, _, before, _, stops, fitsBefore⟩ :=
      Bytecode.exists_failing_step fits failed
    obtain ⟨undefined, reads⟩ :=
      Bytecode.undefined_of_stepInMemory fitsBefore stops
    have present := holds slot
    rw [failed] at present
    exact ⟨present.symm.trans undefined, reads⟩

/-- A write of the fifth slot, and reads of the one before it, of the first one
and of the one behind it. -/
def gappedReads : Bytecode :=
  ⟨⟨#[6, 17, 0, 4, 16, 0, 3, 16, 0, 0, 16, 0, 5]⟩, #[]⟩

/-- The write leaves a gap in the store. What is read there is null, the first
variable is that from before the run, and the last read fails. -/
theorem gappedReads_recallWrites :
    let start : Memory :=
      ⟨#[.null, .null, .null], 1, #[.int 7], 0, none⟩
    let reached : Memory :=
      ⟨#[.null, .null, .int 7], 3, #[.int 7, .null, .null, .null, .bool true],
        10, none⟩
    start.used ≤ start.cells.size ∧
      gappedReads.runInMemory 5 start =
        .failed ⟨10, .undefinedGlobal 5⟩ reached ∧
      gappedReads.RecallsWrites start 5 := by
  intro start reached
  have fits : start.used ≤ start.cells.size := by
    decide
  have failed :
      gappedReads.runInMemory 5 start =
        .failed ⟨10, .undefinedGlobal 5⟩ reached := by
    decide +kernel
  exact ⟨fits, failed, variables_recall_writes fits 5⟩

end StackLang
