import StackLang.Proofs.Machine.Execution
import StackLang.Proofs.Machine.Runs

namespace StackLang

open MachineM

/-!
# Writes and discards

A run changes the globals by the instructions that write a slot, and the value
that was discarded last by those that discard one. Which slots and values these
are is read off the stages of the run; the machine that a run leaves is the one
that it began with, with the writes and discards made one after the other.
-/

/-- The machine that a step leaves, whether it fails or not. -/
def leftBy {ε α : Type} : EStateM.Result ε Machine α → Machine
  | .ok _ after | .error _ after =>
      after

/-- A step that leaves what is read off a machine as it is. -/
def Preserves {β ε α : Type}
    (read : Machine → β) (step : EStateM ε Machine α) : Prop :=
  ∀ machine, read (leftBy (step machine)) = read machine

/-- A step that does not fail for a slot that was never written. -/
def NeverUndefined {α : Type} (step : MachineM α) : Prop :=
  ∀ machine slot after, step machine ≠ .error (.undefinedGlobal slot) after

namespace Preserves

variable {β : Type} {read : Machine → β}

/-- One step after the other. -/
theorem bind
    {ε α γ : Type} {step : EStateM ε Machine α}
    {next : α → EStateM ε Machine γ}
    (preserves : Preserves read step)
    (nextPreserves : ∀ value, Preserves read (next value)) :
    Preserves read (step >>= next) := by
  intro machine
  have stepPreserved := preserves machine
  simp only [Bind.bind, EStateM.bind]
  cases shape : step machine with
  | ok value after =>
      rw [shape] at stepPreserved
      exact (nextPreserves value after).trans stepPreserved
  | error fault after =>
      rw [shape] at stepPreserved
      exact stepPreserved

/-- A step preserves the same wherever it stands. -/
theorem locate
    {α : Type} {step : MachineM α} {offset : Nat}
    (preserves : Preserves read step) :
    Preserves read (step.locate offset) := by
  intro machine
  have preserved := preserves machine
  rw [MachineM.locate]
  cases shape : step machine <;>
    · rw [shape] at preserved
      exact preserved

/-- Reading a slot changes nothing. -/
theorem getGlobal (slot : Nat) : Preserves read (MachineM.getGlobal slot) := by
  intro machine
  simp only [MachineM.getGlobal, bind_get]
  cases machine.globals[slot]? <;> rfl

variable (apart : ∀ machine stack, read { machine with stack } = read machine)

include apart

theorem push (value : Value) : Preserves read (MachineM.push value) := by
  intro machine
  simp only [MachineM.push, bind_get]
  split
  · exact apart machine _
  · rfl

theorem pop : Preserves read MachineM.pop := by
  intro machine
  simp only [MachineM.pop, bind_get]
  cases machine.stack.back? with
  | some value =>
      exact apart machine _
  | none =>
      rfl

/-- Operations on the stack keep what is apart from it. -/
theorem hereditary : Hereditary (Preserves read) where
  pure _ _ := rfl
  throw _ _ _ := rfl
  bind := bind
  push := push apart
  pop := pop apart

end Preserves

namespace NeverUndefined

theorem bind
    {α β : Type} {step : MachineM α} {next : α → MachineM β}
    (never : NeverUndefined step)
    (nextNever : ∀ value, NeverUndefined (next value)) :
    NeverUndefined (step >>= next) := by
  intro machine slot after failed
  simp only [Bind.bind, EStateM.bind] at failed
  cases shape : step machine with
  | ok value middle =>
      rw [shape] at failed
      exact nextNever value middle slot after failed
  | error fault middle =>
      rw [shape] at failed
      cases failed
      exact never machine slot _ shape

/-- Operations on the stack have faults of their own. -/
theorem hereditary : Hereditary NeverUndefined where
  pure _ := nofun
  throw fault notUndefined := by
    intro machine slot after failed
    cases failed
    exact notUndefined slot rfl
  bind := bind
  push value := by
    intro machine slot after failed
    simp only [MachineM.push, bind_get] at failed
    split at failed <;> cases failed
  pop := by
    intro machine slot after failed
    simp only [MachineM.pop, bind_get] at failed
    cases shape : machine.stack.back? <;> rw [shape] at failed <;> cases failed

end NeverUndefined

namespace Instr

variable {instr : Instr}

/-- Nothing but a write changes the globals. -/
theorem execute_preserves_globals
    (noWrite : instr.opcode ≠ .setGlobal)
    (constants : Array Value) (next : Nat) :
    Preserves Machine.globals (instr.execute constants next) :=
  (Preserves.hereditary fun _ _ => rfl).execute instr constants next
    (fun _ _ _ => rfl) (fun writes => (noWrite writes).elim)
    (fun _ => .getGlobal _)

/-- Nothing but a discard changes the value that was discarded last. -/
theorem execute_preserves_lastPopped
    (noDiscard : instr.opcode ≠ .pop)
    (constants : Array Value) (next : Nat) :
    Preserves Machine.lastPopped (instr.execute constants next) :=
  (Preserves.hereditary fun _ _ => rfl).execute instr constants next
    (fun discards => (noDiscard discards).elim) (fun _ _ _ => rfl)
    (fun _ => .getGlobal _)

/-- Nothing but a read fails for a slot that was never written. -/
theorem execute_neverUndefined
    (noRead : instr.opcode ≠ .getGlobal)
    (constants : Array Value) (next : Nat) :
    NeverUndefined (instr.execute constants next) :=
  NeverUndefined.hereditary.execute instr constants next
    (fun _ _ _ _ _ => nofun) (fun _ _ _ _ _ => nofun)
    (fun reads => (noRead reads).elim)

end Instr

/-- A slot that is written, and where the instruction stands that writes it. -/
structure Write where
  offset : Nat
  slot : Nat
  value : Value

/-- The globals after writes were made one after the other. -/
def applyWrites (globals : Array Value) (writes : List Write) : Array Value :=
  writes.foldl (fun globals write => storeGlobal globals write.slot write.value)
    globals

/-- Writes in two parts are made one part after the other. -/
theorem applyWrites_append
    (globals : Array Value) (first second : List Write) :
    applyWrites globals (first ++ second) =
      applyWrites (applyWrites globals first) second :=
  List.foldl_append

section Slots

variable {globals : Array Value} {slot : Nat}

/-- A slot that is written has the value. -/
theorem getElem?_storeGlobal_self (value : Value) :
    (storeGlobal globals slot value)[slot]? = some value := by
  rw [storeGlobal]
  split
  case isTrue inside =>
    simp [inside]
  case isFalse outside =>
    have isLast :
        slot = (globals ++
          Array.replicate (slot - globals.size) Value.null).size := by
      simp
      omega
    rw [Array.getElem?_push, if_pos isLast]

/-- Another slot keeps its value; before the one that is written it has null if
it had none. -/
theorem getElem?_storeGlobal_of_ne
    {written : Nat} (other : written ≠ slot) (value : Value) :
    (storeGlobal globals written value)[slot]? =
      globals[slot]?.or (if slot < written then some .null else none) := by
  rw [storeGlobal]
  split
  case isTrue inside =>
    rw [Array.getElem?_setIfInBounds_ne other]
    by_cases before : slot < written
    · have found : slot < globals.size := Nat.lt_trans before inside
      simp [found]
    · simp [before]
  case isFalse outside =>
    by_cases found : slot < globals.size
    · simp [Array.getElem?_append, found]
    · have apart : slot - globals.size ≠ written - globals.size := by
        omega
      have gap :
          slot - globals.size < written - globals.size ↔ slot < written := by
        omega
      simp [Array.getElem?_push, Array.getElem?_append,
        Array.getElem?_replicate, found, apart, gap]

/-- A slot that is not written keeps its value. It has null if it had none and
a slot behind it is written. -/
theorem getElem?_applyWrites_of_unwritten
    {writes : List Write}
    (unwritten : ∀ write ∈ writes, write.slot ≠ slot) :
    (applyWrites globals writes)[slot]? =
      globals[slot]?.or
        (if ∃ write ∈ writes, slot < write.slot then some .null else none) := by
  induction writes generalizing globals with
  | nil =>
      simp [applyWrites]
  | cons write rest inductionHypothesis =>
      have first := unwritten write List.mem_cons_self
      rw [applyWrites, List.foldl_cons, ← applyWrites,
        inductionHypothesis fun other member =>
          unwritten other (List.mem_cons_of_mem _ member),
        getElem?_storeGlobal_of_ne first, Option.or_assoc]
      by_cases before : slot < write.slot <;> simp [before]

/-- A slot has the value that was written last. -/
theorem getElem?_applyWrites_of_last
    {earlier later : List Write} {write : Write}
    (last : ∀ other ∈ later, other.slot ≠ write.slot) :
    (applyWrites globals (earlier ++ write :: later))[write.slot]? =
      some write.value := by
  rw [applyWrites_append, applyWrites, List.foldl_cons, ← applyWrites,
    getElem?_applyWrites_of_unwritten last, getElem?_storeGlobal_self]
  rfl

end Slots

namespace Bytecode

variable {bytecode : Bytecode} {offset : Nat} {machine : Machine}

/-- What is written at a stage. -/
def write? (bytecode : Bytecode) (stage : Stage) : Option Write :=
  match bytecode.code.fetch stage.offset with
  | .instr instr _ =>
      if instr.opcode = .setGlobal then
        stage.machine.top?.map (⟨stage.offset, instr.operand, ·⟩)
      else
        none
  | _ =>
      none

/-- A write is made by an instruction of its stage that writes the slot. -/
theorem exists_instr_of_write?
    {stage : Stage} {write : Write}
    (written : bytecode.write? stage = some write) :
    write.offset = stage.offset ∧
      ∃ instr next,
        bytecode.code.fetch stage.offset = .instr instr next ∧
          instr.opcode = .setGlobal ∧ write.slot = instr.operand := by
  rw [write?] at written
  split at written
  case h_1 instr next fetched =>
    split at written
    case isTrue writes =>
      obtain ⟨value, _, rfl⟩ := Option.map_eq_some_iff.mp written
      exact ⟨rfl, instr, next, fetched, writes, rfl⟩
    case isFalse =>
      cases written
  case h_2 =>
    cases written

/-- The value that is discarded at a stage. -/
def discard? (bytecode : Bytecode) (stage : Stage) : Option Value :=
  match bytecode.code.fetch stage.offset with
  | .instr instr _ =>
      if instr.opcode = .pop then
        stage.machine.top?
      else
        none
  | _ =>
      none

/-- What a run of at most `fuel` steps from an offset writes. -/
def writesFrom (bytecode : Bytecode) (fuel offset : Nat) (machine : Machine) :
    List Write :=
  (bytecode.stagesFrom fuel offset machine).filterMap bytecode.write?

/-- What a run of at most `fuel` steps from the start of the code writes. -/
def writes (bytecode : Bytecode) (fuel : Nat) (machine : Machine) :
    List Write :=
  bytecode.writesFrom fuel 0 machine

/-- The values that a run of at most `fuel` steps from an offset discards. -/
def discardsFrom
    (bytecode : Bytecode) (fuel offset : Nat) (machine : Machine) :
    List Value :=
  (bytecode.stagesFrom fuel offset machine).filterMap bytecode.discard?

/-- What a step leaves: what its instruction leaves, if there is one. -/
theorem machine_step :
    (bytecode.step offset machine).machine =
      match bytecode.code.fetch offset with
      | .instr instr next =>
          leftBy (instr.execute bytecode.constants next machine)
      | _ =>
          machine := by
  simp only [step]
  cases bytecode.code.fetch offset with
  | past | undecodable error =>
      rfl
  | instr instr next =>
      simp only
      cases instr.execute bytecode.constants next machine <;> rfl

/-- A step makes the write of its stage, and no other one. -/
theorem globals_step (offset : Nat) (machine : Machine) :
    (bytecode.step offset machine).machine.globals =
      applyWrites machine.globals
        (bytecode.write? ⟨offset, machine⟩).toList := by
  rw [machine_step, write?]
  cases bytecode.code.fetch offset with
  | past | undecodable error =>
      rfl
  | instr instr next =>
      by_cases writes : instr.opcode = .setGlobal
      · obtain ⟨opcode, operands⟩ := instr
        subst writes
        simp only [Instr.execute, pop, setGlobal, Machine.top?, bind_assoc,
          bind_get]
        cases machine.stack.back? <;> rfl
      · simp only [if_neg writes]
        exact instr.execute_preserves_globals writes _ _ machine

/-- A step makes the discard of its stage, and no other one. -/
theorem lastPopped_step (offset : Nat) (machine : Machine) :
    (bytecode.step offset machine).machine.lastPopped =
      (bytecode.discard? ⟨offset, machine⟩).or machine.lastPopped := by
  rw [machine_step, discard?]
  cases bytecode.code.fetch offset with
  | past | undecodable error =>
      rfl
  | instr instr next =>
      by_cases discards : instr.opcode = .pop
      · obtain ⟨opcode, operands⟩ := instr
        subst discards
        simp only [Instr.execute, pop, setLastPopped, Machine.top?, bind_assoc,
          bind_get]
        cases machine.stack.back? <;> rfl
      · simp only [if_neg discards]
        exact instr.execute_preserves_lastPopped discards _ _ machine

/-- What is read off the stages of a run is read off the first one and then
off the others. -/
theorem filterMap_stagesFrom_succ
    {β : Type} (read? : Stage → Option β) (fuel : Nat) :
    (bytecode.stagesFrom (fuel + 1) offset machine).filterMap read? =
      (read? ⟨offset, machine⟩).toList ++
        match bytecode.step offset machine with
        | .running offset machine =>
            (bytecode.stagesFrom fuel offset machine).filterMap read?
        | _ =>
            [] := by
  rw [stagesFrom, List.filterMap_cons]
  cases read? ⟨offset, machine⟩ <;> cases bytecode.step offset machine <;> rfl

/-- A run leaves the globals with its writes made in their order. -/
theorem globals_runFrom (offset : Nat) (machine : Machine) (fuel : Nat) :
    (bytecode.runFrom fuel offset machine).machine.globals =
      applyWrites machine.globals
        (bytecode.writesFrom fuel offset machine) := by
  induction fuel generalizing offset machine with
  | zero =>
      rfl
  | succ fuel inductionHypothesis =>
      have stepped := bytecode.globals_step offset machine
      rw [runFrom, writesFrom, filterMap_stagesFrom_succ, applyWrites_append,
        ← stepped]
      cases bytecode.step offset machine with
      | running target after =>
          exact inductionHypothesis target after
      | finished after | failed error after =>
          rfl

/-- A run leaves the value that it discarded last. -/
theorem lastPopped_runFrom (offset : Nat) (machine : Machine) (fuel : Nat) :
    (bytecode.runFrom fuel offset machine).machine.lastPopped =
      (bytecode.discardsFrom fuel offset machine).getLast?.or
        machine.lastPopped := by
  induction fuel generalizing offset machine with
  | zero =>
      rfl
  | succ fuel inductionHypothesis =>
      have stepped := bytecode.lastPopped_step offset machine
      rw [runFrom, discardsFrom, filterMap_stagesFrom_succ,
        List.getLast?_append, Option.or_assoc]
      have first : (bytecode.discard? ⟨offset, machine⟩).toList.getLast? =
          bytecode.discard? ⟨offset, machine⟩ := by
        cases bytecode.discard? ⟨offset, machine⟩ <;> rfl
      rw [first, ← stepped]
      cases bytecode.step offset machine with
      | running target after =>
          exact inductionHypothesis target after
      | finished after | failed error after =>
          rfl

end Bytecode

end StackLang
