import StackLang.Proofs.Machine.Execution
import StackLang.Proofs.Machine.MemoryRuns

namespace StackLang

open MachineM

/-!
# Safety

Runs over any bytes at all stay within bounds. The stack keeps its cells and
uses no more of them, the store of variables only grows, and only as far as a
two-byte operand can name slots, and no array is accessed outside of its bounds.
An instruction's bytes may be code, operands of another instruction or neither:
nothing is assumed about where jumps lead.
-/

/-- The number of slots that a two-byte operand can name. -/
def slotBound : Nat :=
  65536

/-- A machine that another one can become when slots below a bound are written.
It has the same capacity, no more values than that if there were not too many
before, and all the variables; more are added up to the bound. -/
structure Machine.Becomes (bound : Nat) (machine after : Machine) : Prop where
  capacity : after.capacity = machine.capacity
  fits :
    machine.stack.size ≤ machine.capacity → after.stack.size ≤ after.capacity
  kept : machine.globals.size ≤ after.globals.size
  bounded : after.globals.size ≤ max machine.globals.size bound

namespace Machine.Becomes

variable {bound : Nat} {first second third : Machine}

theorem refl (machine : Machine) : machine.Becomes bound machine :=
  ⟨rfl, id, Nat.le_refl _, Nat.le_max_left _ _⟩

theorem trans
    (becomes : first.Becomes bound second)
    (becomesThen : second.Becomes bound third) :
    first.Becomes bound third where
  capacity := becomesThen.capacity.trans becomes.capacity
  fits := becomesThen.fits ∘ becomes.fits
  kept := Nat.le_trans becomes.kept becomesThen.kept
  bounded := by
    have firstBound := becomes.bounded
    have secondBound := becomesThen.bounded
    omega

/-- The bound may be higher than the slots that are written. -/
theorem mono
    {higher : Nat} (becomes : first.Becomes bound second)
    (isHigher : bound ≤ higher) :
    first.Becomes higher second where
  capacity := becomes.capacity
  fits := becomes.fits
  kept := becomes.kept
  bounded := by
    have firstBound := becomes.bounded
    omega

/-- A machine can become one that differs in its stack only, which fits. -/
theorem withStack
    {stack : Array Value}
    (fits :
      first.stack.size ≤ first.capacity → stack.size ≤ first.capacity) :
    first.Becomes bound { first with stack } :=
  ⟨rfl, fits, Nat.le_refl _, Nat.le_max_left _ _⟩

end Machine.Becomes

/-- The machine that a step leaves is one that the machine can become. -/
def KeepsBounds {α : Type} (bound : Nat) (step : MachineM α) : Prop :=
  ∀ machine,
    match step machine with
    | .ok _ after | .error _ after =>
        machine.Becomes bound after

namespace KeepsBounds

variable {α β : Type} {bound : Nat}

theorem pure (value : α) : KeepsBounds bound (Pure.pure value) :=
  fun machine => .refl machine

theorem throw (fault : Fault) :
    KeepsBounds bound (MonadExcept.throw fault : MachineM α) :=
  fun machine => .refl machine

theorem bind
    {step : MachineM α} {next : α → MachineM β}
    (keeps : KeepsBounds bound step)
    (nextKeeps : ∀ value, KeepsBounds bound (next value)) :
    KeepsBounds bound (step >>= next) := by
  intro machine
  have becomes := keeps machine
  cases shape : step machine with
  | ok value middle =>
      rw [shape] at becomes
      have becomesThen := nextKeeps value middle
      rw [bind_of_ok shape]
      cases rest : next value middle with
      | ok found after =>
          rw [rest] at becomesThen
          exact becomes.trans becomesThen
      | error fault after =>
          rw [rest] at becomesThen
          exact becomes.trans becomesThen
  | error fault after =>
      rw [shape] at becomes
      rw [bind_of_error shape]
      exact becomes

theorem push (value : Value) : KeepsBounds bound (MachineM.push value) := by
  intro machine
  cases pushed : MachineM.push value machine with
  | ok found after =>
      obtain ⟨room, rfl⟩ := push_eq_ok_iff.mp pushed
      refine .withStack fun _ => ?_
      rw [Array.size_push]
      exact room
  | error fault after =>
      obtain ⟨_, _, rfl⟩ := push_eq_error_iff.mp pushed
      exact .refl _

theorem pop : KeepsBounds bound MachineM.pop := by
  intro machine
  cases popped : MachineM.pop machine with
  | ok value after =>
      obtain ⟨_, rfl⟩ := pop_eq_ok_iff.mp popped
      refine .withStack fun fits => ?_
      rw [Array.size_pop]
      exact Nat.le_trans (Nat.sub_le _ 1) fits
  | error fault after =>
      obtain ⟨_, _, rfl⟩ := pop_eq_error_iff.mp popped
      exact .refl _

theorem getGlobal (slot : Nat) :
    KeepsBounds bound (MachineM.getGlobal slot) := by
  intro machine
  cases found : MachineM.getGlobal slot machine with
  | ok value after =>
      obtain ⟨_, rfl⟩ := getGlobal_eq_ok_iff.mp found
      exact .refl _
  | error fault after =>
      obtain ⟨_, _, rfl⟩ := getGlobal_eq_error_iff.mp found
      exact .refl _

/-- A slot below the bound is written. -/
theorem setGlobal {slot : Nat} (below : slot < bound) (value : Value) :
    KeepsBounds bound (MachineM.setGlobal slot value) := by
  intro machine
  refine ⟨rfl, id, ?_, ?_⟩
  · rw [size_storeGlobal]
    exact Nat.le_max_left _ _
  · rw [size_storeGlobal]
    omega

/-- Operations on the stack keep the bounds. -/
theorem hereditary : Hereditary (KeepsBounds bound) where
  pure := pure
  throw fault _ := throw fault
  bind := bind
  push := push
  pop := pop

end KeepsBounds

/-- An instruction writes no slot but the one that its operand names. -/
theorem Instr.execute_keepsBounds
    (instr : Instr) (constants : Array Value) (next : Nat) :
    KeepsBounds (instr.operand + 1) (instr.execute constants next) :=
  KeepsBounds.hereditary.execute instr constants next
    (fun _ _ _ => ⟨rfl, id, Nat.le_refl _, Nat.le_max_left _ _⟩)
    (fun _ => .setGlobal (Nat.lt_succ_self _))
    (fun _ => .getGlobal _)

/-- An instruction that can be encoded names slots within the bound. -/
theorem Instr.Encodable.operand_lt
    {instr : Instr} (encodable : instr.Encodable) :
    instr.operand < slotBound := by
  by_cases takesOne : instr.opcode.operandWidths = [2]
  · obtain ⟨operand, small, isOperand⟩ := encodable.exists_operand takesOne
    rw [Instr.operand, isOperand]
    exact small
  · have takesNone : instr.opcode.operandWidths = [] := by
      obtain ⟨opcode, operands⟩ := instr
      cases opcode <;> first | rfl | exact (takesOne rfl).elim
    have noOperands := (encodable_iff.mp encodable).1
    rw [takesNone, List.length_nil, List.length_eq_zero_iff] at noOperands
    rw [Instr.operand, noOperands]
    decide

namespace Bytecode

variable {bytecode : Bytecode} {offset : Nat}

/-- A step keeps the bounds. -/
theorem step_becomes (offset : Nat) (machine : Machine) :
    machine.Becomes slotBound (bytecode.step offset machine).machine := by
  rw [step]
  cases found : bytecode.code.fetch offset with
  | past =>
      exact .refl machine
  | undecodable source =>
      exact .refl machine
  | instr instr next =>
      have named := (Code.drop_of_fetch found).1.operand_lt
      have keeps := instr.execute_keepsBounds bytecode.constants next machine
      simp only
      cases executed : instr.execute bytecode.constants next machine with
      | ok target after =>
          rw [executed] at keeps
          exact keeps.mono named
      | error fault after =>
          rw [executed] at keeps
          exact keeps.mono named

/-- A run keeps the bounds, however far it goes. -/
theorem runFrom_becomes (fuel : Nat) (machine : Machine) :
    machine.Becomes slotBound
      (bytecode.runFrom fuel offset machine).machine := by
  induction fuel generalizing offset machine with
  | zero =>
      exact .refl machine
  | succ fuel inductionHypothesis =>
      have becomes := bytecode.step_becomes offset machine
      rw [runFrom]
      cases stepped : bytecode.step offset machine with
      | running target after =>
          rw [stepped] at becomes
          exact becomes.trans (inductionHypothesis after)
      | finished after =>
          rw [stepped] at becomes
          exact becomes
      | failed error after =>
          rw [stepped] at becomes
          exact becomes

/-- A run fails within the code. -/
theorem offset_lt_of_runFrom_failed
    {fuel : Nat} {machine after : Machine} {error : RuntimeError}
    (failed : bytecode.runFrom fuel offset machine = .failed error after) :
    error.offset < bytecode.code.size := by
  obtain ⟨steps, target, reached, _, _, stops⟩ := exists_stage_of_failed failed
  obtain ⟨atTarget, _⟩ := exists_of_step_failed stops
  rw [atTarget, ← Nat.not_le, ← Code.fetch_eq_past_iff]
  intro past
  rw [step, past] at stops
  cases stops

end Bytecode

/-- Memory stays within bounds at a point of a run over some code, with the
given number of cells, and the initial number of variables. -/
structure MemoryProgress.WithinBounds
    (code : Code) (capacity initial : Nat) (progress : MemoryProgress) :
    Prop where
  /-- No access was out of bounds. -/
  inBounds : ∀ memory, progress ≠ .outOfBounds memory
  /-- Nor is the access to the topmost value. -/
  topInBounds :
    ∃ top, MemoryM.top? progress.memory = .ok top progress.memory
  cells : progress.memory.cells.size = capacity
  used : progress.memory.used ≤ capacity
  kept : initial ≤ progress.memory.globals.size
  bounded : progress.memory.globals.size ≤ max initial slotBound
  /-- An error is that of an offset within the code. -/
  within :
    ∀ error memory, progress = .failed error memory → error.offset < code.size

namespace Memory

variable {memory : Memory}

/-- The topmost value is read within bounds. -/
theorem exists_top (fits : memory.Fits) :
    ∃ top, MemoryM.top? memory = .ok top memory := by
  simp only [MemoryM.top?, bind_get]
  by_cases isEmpty : memory.used = 0
  · rw [if_pos isEmpty]
    exact ⟨none, rfl⟩
  · have inUse : memory.used - 1 < memory.cells.size := by
      have bounded : memory.used ≤ memory.cells.size := fits
      omega
    refine ⟨some memory.cells[memory.used - 1], ?_⟩
    simp only [if_neg isEmpty, bind_get, MemoryM.readAt,
      Array.getElem?_eq_getElem inUse]
    rfl

end Memory

/-- What is shown of a run has the machine of the run in memory. -/
theorem MemoryProgress.Shows.machine_eq
    {shown : MemoryProgress} {progress : Progress}
    (shows : shown.Shows progress) :
    shown.memory.machine = progress.machine := by
  obtain ⟨same, _⟩ := shows
  cases shown <;> cases same <;> rfl

namespace Bytecode

variable {bytecode : Bytecode} {memory : Memory}

/-- A run in memory leaves what the machine there can become. -/
theorem runInMemory_becomes (fuel : Nat) (fits : memory.Fits) :
    memory.machine.Becomes slotBound
      (bytecode.runInMemory fuel memory).memory.machine := by
  rw [(bytecode.runInMemory_shows fuel fits).machine_eq]
  exact bytecode.runFrom_becomes fuel memory.machine

/-- A longer run in memory leaves what the machine there can become after a
shorter one. -/
theorem runInMemory_add_becomes (fuel more : Nat) (fits : memory.Fits) :
    (bytecode.runInMemory fuel memory).memory.machine.Becomes
      slotBound (bytecode.runInMemory (fuel + more) memory).memory.machine := by
  rw [(bytecode.runInMemory_shows fuel fits).machine_eq,
    (bytecode.runInMemory_shows (fuel + more) fits).machine_eq,
    run, run, runFrom_add]
  cases bytecode.runFrom fuel 0 memory.machine with
  | running target after =>
      exact bytecode.runFrom_becomes more after
  | finished after | failed error after =>
      exact .refl after

/-- One run after another leaves memory that fits, with what the machine there
can become. -/
theorem rerunInMemory_becomes (runs : List Nat) (fits : memory.Fits) :
    (bytecode.rerunInMemory runs memory).Fits ∧
      memory.machine.Becomes slotBound
        (bytecode.rerunInMemory runs memory).machine := by
  induction runs generalizing memory with
  | nil =>
      exact ⟨fits, .refl _⟩
  | cons fuel runs inductionHypothesis =>
      have fitsAfter := (bytecode.runInMemory_shows fuel fits).fits
      obtain ⟨fitsFinally, becomes⟩ := inductionHypothesis fitsAfter
      exact ⟨fitsFinally, (bytecode.runInMemory_becomes fuel fits).trans becomes⟩

end Bytecode

/--
Whatever bytes are run, on a stack of any capacity, with any constants and any
variables to begin with, and after any earlier runs: the run stays within bounds
at every point, and the number of variables never decreases on its way.
-/
theorem runs_within_bounds
    (bytecode : Bytecode) (capacity : Nat) (globals : Array Value)
    (earlier : List Nat) (fuel : Nat) :
    let start := bytecode.rerunInMemory earlier (.resume capacity globals)
    (bytecode.runInMemory fuel start).WithinBounds bytecode.code capacity
        globals.size ∧
      ∀ more,
        (bytecode.runInMemory fuel start).memory.globals.size ≤
          (bytecode.runInMemory (fuel + more) start).memory.globals.size := by
  intro start
  have fitsAtFirst : (Memory.resume capacity globals).Fits := Nat.zero_le _
  have capacityAtFirst :
      (Memory.resume capacity globals).machine.capacity = capacity :=
    Array.size_replicate
  obtain ⟨fits, becomesStart⟩ :=
    bytecode.rerunInMemory_becomes earlier fitsAtFirst
  have becomes :=
    becomesStart.trans (bytecode.runInMemory_becomes fuel fits)
  obtain ⟨same, fitsAfter⟩ := bytecode.runInMemory_shows fuel fits
  have cells :
      (bytecode.runInMemory fuel start).memory.cells.size = capacity :=
    becomes.capacity.trans capacityAtFirst
  refine ⟨⟨?inBounds, ?topInBounds, cells, ?used, becomes.kept,
    becomes.bounded, ?within⟩, ?grows⟩
  case inBounds =>
    intro memory outside
    rw [outside] at same
    cases same
  case topInBounds =>
    exact Memory.exists_top fitsAfter
  case used =>
    exact Nat.le_trans fitsAfter (Nat.le_of_eq cells)
  case within =>
    intro error memory failed
    rw [failed] at same
    exact bytecode.offset_lt_of_runFrom_failed (Option.some.inj same).symm
  case grows =>
    intro more
    exact (bytecode.runInMemory_add_becomes fuel more fits).kept

end StackLang
