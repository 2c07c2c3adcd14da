import StackLang.Machine.Basic
import StackLang.Proofs.Effects

namespace StackLang

/-!
# Operations of the machine

When an operation on the stack or on the global variables succeeds, when it
fails, and what it leaves either way.
-/

/-- A store reaches to the slot that was written. -/
@[simp] theorem size_storeGlobal
    {globals : Array Value} {slot : Nat} {value : Value} :
    (storeGlobal globals slot value).size = max globals.size (slot + 1) := by
  rw [storeGlobal]
  split
  case isTrue inside =>
    rw [Array.size_setIfInBounds]
    omega
  case isFalse outside =>
    rw [Array.size_push, Array.size_append, Array.size_replicate]
    omega

namespace MachineM

variable {machine after : Machine} {value : Value} {fault : Fault}

/-- A push succeeds if there is room for the value. -/
theorem push_eq_ok_iff {found : PUnit} :
    push value machine = .ok found after ↔
      machine.stack.size < machine.capacity ∧
        { machine with stack := machine.stack.push value } = after := by
  simp only [push, bind_get]
  by_cases fits : machine.stack.size < machine.capacity
  · rw [if_pos fits]
    constructor
    · rintro ⟨⟩
      exact ⟨fits, rfl⟩
    · rintro ⟨_, rfl⟩
      rfl
  · rw [if_neg fits]
    constructor
    · rintro ⟨⟩
    · rintro ⟨room, _⟩
      exact (fits room).elim

/-- A push fails if there is no room, and leaves the machine as it is. -/
theorem push_eq_error_iff :
    push value machine = .error fault after ↔
      machine.capacity ≤ machine.stack.size ∧
        fault = .stackOverflow ∧ machine = after := by
  simp only [push, bind_get]
  by_cases fits : machine.stack.size < machine.capacity
  · rw [if_pos fits]
    constructor
    · rintro ⟨⟩
    · rintro ⟨full, _⟩
      exact (Nat.not_le.mpr fits full).elim
  · rw [if_neg fits]
    constructor
    · rintro ⟨⟩
      exact ⟨Nat.le_of_not_lt fits, rfl, rfl⟩
    · rintro ⟨_, rfl, rfl⟩
      rfl

/-- A pop succeeds if there is a value. -/
theorem pop_eq_ok_iff :
    pop machine = .ok value after ↔
      machine.stack.back? = some value ∧
        { machine with stack := machine.stack.pop } = after := by
  simp only [pop, bind_get]
  cases machine.stack.back? with
  | some top =>
      constructor
      · rintro ⟨⟩
        exact ⟨rfl, rfl⟩
      · rintro ⟨⟨⟩, rfl⟩
        rfl
  | none =>
      constructor
      · rintro ⟨⟩
      · rintro ⟨⟨⟩, _⟩

/-- A pop fails if there is no value, and leaves the machine as it is. -/
theorem pop_eq_error_iff :
    pop machine = .error fault after ↔
      machine.stack = #[] ∧ fault = .stackUnderflow ∧ machine = after := by
  rw [← Array.back?_eq_none_iff]
  simp only [pop, bind_get]
  cases machine.stack.back? with
  | some top =>
      constructor
      · rintro ⟨⟩
      · rintro ⟨⟨⟩, _⟩
  | none =>
      constructor
      · rintro ⟨⟩
        exact ⟨rfl, rfl, rfl⟩
      · rintro ⟨_, rfl, rfl⟩
        rfl

/-- A read succeeds if the variable has a value, and changes nothing. -/
theorem getGlobal_eq_ok_iff {slot : Nat} :
    getGlobal slot machine = .ok value after ↔
      machine.globals[slot]? = some value ∧ machine = after := by
  simp only [getGlobal, bind_get]
  cases machine.globals[slot]? with
  | some found =>
      constructor
      · rintro ⟨⟩
        exact ⟨rfl, rfl⟩
      · rintro ⟨⟨⟩, rfl⟩
        rfl
  | none =>
      constructor
      · rintro ⟨⟩
      · rintro ⟨⟨⟩, _⟩

/-- A read fails if the variable has no value, and changes nothing. -/
theorem getGlobal_eq_error_iff {slot : Nat} :
    getGlobal slot machine = .error fault after ↔
      machine.globals[slot]? = none ∧
        fault = .undefinedGlobal slot ∧ machine = after := by
  simp only [getGlobal, bind_get]
  cases machine.globals[slot]? with
  | some found =>
      constructor
      · rintro ⟨⟩
      · rintro ⟨⟨⟩, _⟩
  | none =>
      constructor
      · rintro ⟨⟩
        exact ⟨rfl, rfl, rfl⟩
      · rintro ⟨_, rfl, rfl⟩
        rfl

end MachineM

end StackLang
