import StackLang.Proofs.Compilation.StackNeed
import StackLang.Proofs.Machine.Failures
import StackLang.Proofs.Machine.Safety

namespace StackLang

open MachineM

/-!
# Enough stack

A stack overflows only where a value is pushed that is not the result of popped
ones, and there the depth is below the peak of the plan. So cells up to the peak
are enough on every way through the plan; and where there is one way only, a
run that comes to its end has been at the peak.
-/

/-- A machine has the values of its base and those on top. -/
theorem Machine.Stacked.size_eq
    {machine base : Machine} {depth : Nat}
    (stacked : machine.Stacked base depth) :
    machine.stack.size = base.stack.size + depth := by
  obtain ⟨_, upper, shape, size⟩ := stacked
  rw [shape, Array.size_append, size]

/-- An instruction that succeeds has not pushed more values than fit. -/
theorem Instr.fits_of_execute
    {instr : Instr} {constants : Array Value} {next target : Nat}
    {machine after : Machine}
    (fits : machine.stack.size ≤ machine.capacity)
    (executed : instr.execute constants next machine = .ok target after) :
    after.stack.size ≤ after.capacity := by
  have becomes := instr.execute_keepsBounds constants next machine
  rw [executed] at becomes
  exact becomes.fits fits

section Plans

variable {pool before after offset : Nat} {plan : Plan}
variable {constants : Array Value} {base machine : Machine}

/-- What executing a balanced plan leaves has the depth behind the plan. -/
theorem Plan.Balanced.stacked_of_execute
    {reached : Machine}
    (poolSize : constants.size = pool)
    (balanced : plan.Balanced pool before after)
    (stacked : machine.Stacked base before)
    (executed : plan.execute constants offset machine = .ok () reached) :
    reached.Stacked base after := by
  have moved := balanced.execute_moves poolSize offset base machine stacked
  rwa [executed] at moved

/-- A balanced plan does not overflow a stack that has room for its peak. -/
theorem Plan.Balanced.ne_stackOverflow
    {failedOn : Machine} {error : RuntimeError}
    (poolSize : constants.size = pool)
    (balanced : plan.Balanced pool before after)
    (stacked : machine.Stacked base before)
    (room : base.stack.size + plan.peak before ≤ base.capacity)
    (failed : plan.execute constants offset machine = .error error failedOn) :
    error.fault ≠ .stackOverflow := by
  induction balanced generalizing offset machine with
  | empty =>
      cases failed
  | @single instr before after depth _ _ takes leaves =>
      obtain ⟨_, effectFailed⟩ := locate_eq_error_iff.mp failed
      rw [Instr.effect_eq_error_iff] at effectFailed
      have size := stacked.size_eq
      have capacity := stacked.1
      simp only [peak] at room
      have bounded : machine.stack.size ≤ machine.capacity := by
        omega
      obtain ⟨_, _, fails⟩ :=
        instr.execute_failsOnlyAs constants 0 bounded machine (.refl machine)
          _ _ effectFailed
      intro overflows
      rw [overflows] at fails
      -- The value would be pushed below the peak, but the stack is full.
      cases fails with
      | overflow grows full =>
          simp only [Opcode.grows, decide_eq_true_eq] at grows
          omega
  | seq firstBalanced _ firstHypothesis secondHypothesis =>
      rw [peak, firstBalanced.depthAfter_eq] at room
      rcases bind_eq_error_iff.mp failed with
        firstFailed | ⟨_, reached, executed, secondFailed⟩
      · exact firstHypothesis stacked (by omega) firstFailed
      · exact secondHypothesis
          (firstBalanced.stacked_of_execute poolSize stacked executed)
          (by omega) secondFailed
  | choice _ _ consequenceHypothesis alternativeHypothesis =>
      rw [peak, Nat.add_sub_cancel] at room
      rcases bind_eq_error_iff.mp failed with
        popFailed | ⟨condition, reached, popped, armFailed⟩
      · obtain ⟨_, underflows⟩ := locate_eq_error_iff.mp popFailed
        rw [(pop_eq_error_iff.mp underflows).2.1]
        nofun
      · have moved := pop_moves base machine stacked
        rw [locate_eq_ok_iff.mp popped] at moved
        split at armFailed
        · exact consequenceHypothesis moved (by omega) armFailed
        · exact alternativeHypothesis moved (by omega) armFailed

/-- A plan with one way through that was executed had room for its peak. -/
theorem Plan.Balanced.peak_le_capacity
    {reached : Machine}
    (poolSize : constants.size = pool)
    (balanced : plan.Balanced pool before after) (linear : plan.Linear)
    (stacked : machine.Stacked base before)
    (fits : machine.stack.size ≤ machine.capacity)
    (executed : plan.execute constants offset machine = .ok () reached) :
    base.stack.size + plan.peak before ≤ base.capacity ∧
      reached.stack.size ≤ reached.capacity := by
  induction balanced generalizing offset machine reached with
  | empty =>
      cases executed
      have size := stacked.size_eq
      have capacity := stacked.1
      simp only [peak]
      exact ⟨by omega, fits⟩
  | @single instr before after depth straight pooled takes leaves =>
      have stackedAfter :=
        (Plan.Balanced.single depth straight pooled takes leaves
          ).stacked_of_execute poolSize stacked executed
      obtain ⟨target, instrExecuted⟩ :=
        Instr.effect_eq_ok_iff.mp (locate_eq_ok_iff.mp executed)
      have fitsAfter := Instr.fits_of_execute fits instrExecuted
      have size := stacked.size_eq
      have sizeAfter := stackedAfter.size_eq
      have capacity := stacked.1
      have capacityAfter := stackedAfter.1
      simp only [peak]
      exact ⟨by omega, fitsAfter⟩
  | seq firstBalanced _ firstHypothesis secondHypothesis =>
      obtain ⟨_, middle, firstExecuted, secondExecuted⟩ :=
        bind_eq_ok_iff.mp executed
      obtain ⟨firstRoom, fitsMiddle⟩ :=
        firstHypothesis linear.1 stacked fits firstExecuted
      obtain ⟨secondRoom, fitsAfter⟩ :=
        secondHypothesis linear.2
          (firstBalanced.stacked_of_execute poolSize stacked firstExecuted)
          fitsMiddle secondExecuted
      rw [peak, firstBalanced.depthAfter_eq]
      exact ⟨by omega, fitsAfter⟩
  | choice =>
      exact linear.elim

end Plans

section Runs

variable {scope : Scope} {constants : Array Value} {program : Program}
variable {after : Compilation}
variable (compiled : Compiled scope constants program after)

include compiled

/-- No run of a compiled program overflows a stack that has the free cells that
the program needs. -/
theorem Compiled.ne_stackOverflow
    {fuel : Nat} {start failedOn : Machine} {error : RuntimeError}
    (enough :
      start.stack.size + stackNeedOfStatements program ≤ start.capacity)
    (failed : after.bytecode.run fuel start = .failed error failedOn) :
    error.fault ≠ .stackOverflow := by
  have balanced :
      (planStatements ⟨constants.size, scope⟩ program).Balanced
        after.bytecode.constants.size 0 0 :=
    compiled.balanced
  have executed :=
    Plan.execute_of_failed balanced.straight compiled.consists failed
  refine balanced.ne_stackOverflow rfl start.stacked_self ?_ executed
  rwa [compiled.peak_eq, Nat.zero_add]

/-- A run of a compiled program without choices finishes only if the stack has
the free cells that the program needs. -/
theorem Compiled.stackNeed_le_capacity
    {fuel : Nat} {start finished : Machine}
    (noChoice : statementsHaveChoice program = false)
    (fits : start.stack.size ≤ start.capacity)
    (finishes : after.bytecode.run fuel start = .finished finished) :
    start.stack.size + stackNeedOfStatements program ≤ start.capacity := by
  have balanced :
      (planStatements ⟨constants.size, scope⟩ program).Balanced
        after.bytecode.constants.size 0 0 :=
    compiled.balanced
  have executed :=
    Plan.execute_of_finished balanced.straight compiled.consists finishes
  have room :=
    (balanced.peak_le_capacity rfl (planStatements_linear program noChoice)
      start.stacked_self fits executed).1
  rwa [compiled.peak_eq, Nat.zero_add] at room

end Runs

/-- A compiled program runs without overflow on every stack of the capacity that
it needs or more. If it has no choices, then it finishes on no smaller one. -/
theorem stackNeed_is_exact
    {program : Program} {bytecode : Bytecode}
    (succeeded : compile program = .ok bytecode) :
    (∀ capacity fuel error after,
      stackNeedOfStatements program ≤ capacity →
        bytecode.run fuel (.ofCapacity capacity) = .failed error after →
          error.fault ≠ .stackOverflow) ∧
      (statementsHaveChoice program = false →
        ∀ capacity fuel after,
          capacity < stackNeedOfStatements program →
            bytecode.run fuel (.ofCapacity capacity) ≠ .finished after) := by
  obtain ⟨compilation, rfl, compiled⟩ := compiled_of_compile succeeded
  refine ⟨?sufficient, ?necessary⟩
  case sufficient =>
    intro capacity fuel error after enough failed
    refine compiled.ne_stackOverflow ?_ failed
    exact Nat.le_trans (Nat.le_of_eq (Nat.zero_add _)) enough
  case necessary =>
    intro noChoice capacity fuel after tooSmall finishes
    have fits : (Machine.ofCapacity capacity).stack.size ≤ capacity :=
      Nat.zero_le capacity
    have room : 0 + stackNeedOfStatements program ≤ capacity :=
      compiled.stackNeed_le_capacity noChoice fits finishes
    omega

/-- A sum is compared with a literal, whose value is put on the stack first. -/
def comparedSum : Program :=
  [.expr
    (.binary
      (.binary (.int 1) "+" (.binary (.int 2) "*" (.int 3)))
      "<"
      (.int 4))]

/-- The comparison needs four cells, one more than its operands in their written
order. -/
theorem stackNeed_is_exact_comparedSum :
    ∃ bytecode,
      compile comparedSum = .ok bytecode ∧
        (∀ capacity fuel error after,
          4 ≤ capacity →
            bytecode.run fuel (.ofCapacity capacity) = .failed error after →
              error.fault ≠ .stackOverflow) ∧
        ∀ capacity fuel after,
          capacity < 4 →
            bytecode.run fuel (.ofCapacity capacity) ≠ .finished after := by
  have compiles : ∃ bytecode, compile comparedSum = .ok bytecode :=
    exists_compile_eq_ok_iff.mpr rfl
  obtain ⟨bytecode, succeeded⟩ := compiles
  obtain ⟨sufficient, necessary⟩ := stackNeed_is_exact succeeded
  exact ⟨bytecode, succeeded, sufficient, necessary rfl⟩

end StackLang
