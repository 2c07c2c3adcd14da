import StackLang.Proofs.Compilation.Balance

namespace StackLang

open MachineM

/-!
# Relocated plans

The same plan can be laid out further on in longer code, with a longer pool, and
be executed after other values were discarded. It then does the same, apart from
the offsets of its errors and from the value that was discarded last before it.
-/

/-- The machine as it is when an earlier value was discarded last, unless there
is a later one. -/
def Machine.recalling (machine : Machine) (earlier : Option Value) : Machine :=
  { machine with lastPopped := machine.lastPopped.or earlier }

/-- An error further on in the code. -/
def RuntimeError.shifted (shift : Nat) (error : RuntimeError) : RuntimeError where
  offset := shift + error.offset
  fault := error.fault

/-- After an earlier value was discarded, a step does what another step does
without it, with errors changed as told. -/
def Relocates {ε α : Type}
    (earlier : Option Value) (moved : ε → ε)
    (relocated original : EStateM ε Machine α) : Prop :=
  ∀ machine,
    relocated (machine.recalling earlier) =
      match original machine with
      | .ok value after =>
          .ok value (after.recalling earlier)
      | .error error after =>
          .error (moved error) (after.recalling earlier)

namespace Relocates

variable {ε α β : Type} {earlier : Option Value} {moved : ε → ε}

theorem bind
    {relocated original : EStateM ε Machine α}
    {relocatedNext originalNext : α → EStateM ε Machine β}
    (relocates : Relocates earlier moved relocated original)
    (nextRelocates :
      ∀ value,
        Relocates earlier moved (relocatedNext value) (originalNext value)) :
    Relocates earlier moved (relocated >>= relocatedNext)
      (original >>= originalNext) := by
  intro machine
  have same := relocates machine
  simp only [Bind.bind, EStateM.bind]
  cases shape : original machine with
  | ok value after =>
      rw [shape] at same
      rw [same]
      exact nextRelocates value after
  | error error after =>
      rw [shape] at same
      rw [same]

theorem pure (value : α) :
    Relocates earlier moved (Pure.pure value : EStateM ε Machine α)
      (Pure.pure value) :=
  fun _ => rfl

/-- A step of the machine, relocated with its instruction. -/
theorem locate
    {relocated original : MachineM α} {shift offset : Nat}
    (relocates : Relocates earlier id relocated original) :
    Relocates earlier (RuntimeError.shifted shift)
      (MachineM.locate (shift + offset) relocated)
      (MachineM.locate offset original) := by
  intro machine
  have same := relocates machine
  simp only [MachineM.locate, same]
  cases original machine <;> rfl

end Relocates

/-- A step that an earlier discarded value makes no difference to. -/
def Recalls {α : Type} (step : MachineM α) : Prop :=
  ∀ earlier, Relocates earlier id step step

namespace Recalls

theorem push (value : Value) : Recalls (MachineM.push value) := by
  intro earlier machine
  simp only [MachineM.push, bind_get, Machine.recalling]
  split <;> rfl

theorem pop : Recalls MachineM.pop := by
  intro earlier machine
  simp only [MachineM.pop, bind_get, Machine.recalling]
  cases machine.stack.back? <;> rfl

theorem getGlobal (slot : Nat) : Recalls (MachineM.getGlobal slot) := by
  intro earlier machine
  simp only [MachineM.getGlobal, bind_get, Machine.recalling]
  cases machine.globals[slot]? <;> rfl

/-- No operation on the stack looks at the value that was discarded last. -/
theorem hereditary : Hereditary Recalls where
  pure value _ := .pure value
  throw _ _ _ _ := rfl
  bind recalls nextRecalls earlier :=
    (recalls earlier).bind fun value => nextRecalls value earlier
  push := push
  pop := pop

/-- No instruction looks at the value that was discarded last. -/
theorem execute (instr : Instr) (constants : Array Value) (next : Nat) :
    Recalls (instr.execute constants next) :=
  hereditary.execute instr constants next (fun _ _ _ _ => rfl)
    (fun _ _ _ _ => rfl) (fun _ => getGlobal _)

end Recalls

/-- More constants make no difference to an instruction that finds its own. -/
theorem Instr.execute_append
    {instr : Instr} {constants : Array Value}
    (pooled : instr.opcode = .constant → instr.operand < constants.size)
    (more : Array Value) (next : Nat) :
    instr.execute (constants ++ more) next = instr.execute constants next := by
  obtain ⟨opcode, operands⟩ := instr
  cases opcode with
  | constant =>
      have found :
          (constants ++ more)[Instr.operand ⟨.constant, operands⟩]? =
            constants[Instr.operand ⟨.constant, operands⟩]? :=
        Array.getElem?_append_left (pooled rfl)
      simp only [execute, found]
  | _ =>
      rfl

/-- A balanced plan does the same further on, with more constants and after an
earlier value was discarded. -/
theorem Plan.execute_relocates
    {plan : Plan} {constants : Array Value} {before after : Nat}
    (balanced : plan.Balanced constants.size before after)
    (more : Array Value) (shift offset : Nat) (earlier : Option Value) :
    Relocates earlier (RuntimeError.shifted shift)
      (plan.execute (constants ++ more) (shift + offset))
      (plan.execute constants offset) := by
  generalize poolSize : constants.size = pool at balanced
  induction balanced generalizing offset with
  | empty =>
      exact .pure _
  | single _ _ pooled _ _ =>
      subst poolSize
      refine .locate ?_
      rw [Instr.effect, Instr.execute_append pooled]
      exact (Recalls.execute _ _ _ earlier).bind fun _ => .pure _
  | seq _ _ firstHypothesis secondHypothesis =>
      refine (firstHypothesis offset).bind fun _ => ?_
      rw [Nat.add_assoc]
      exact secondHypothesis _
  | choice _ _ consequenceHypothesis alternativeHypothesis =>
      refine ((Recalls.pop earlier).locate).bind fun condition => ?_
      simp only [Nat.add_assoc]
      split
      · exact consequenceHypothesis _
      · exact alternativeHypothesis _

end StackLang
