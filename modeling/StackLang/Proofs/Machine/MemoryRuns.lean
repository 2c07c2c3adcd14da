import StackLang.Proofs.Machine.Memory
import StackLang.Proofs.Machine.Runs

namespace StackLang

open MemoryM

/-!
# Runs in memory

A run in memory is the run of the machine that lies there: after the same number
of steps it has come to the same offset, or has ended in the same way, and what
lies in memory is the machine as its own run has left it. Neither what the cells
that are not in use hold, nor that accesses are checked, makes a difference.
-/

namespace MemoryM

variable {memory : Memory}

/-- Words are read where a window reaches to the last of them. -/
theorem readOperands_eq
    {window : Window} {first : Nat} {widths : List Nat}
    (inside : first + widths.foldr (· + ·) 0 ≤ window.size) :
    readOperands window first widths memory =
      .ok
        (readWords window.bytes (window.start + first) widths,
          first + widths.foldr (· + ·) 0)
        memory := by
  induction widths generalizing first with
  | nil =>
      rfl
  | cons width widths inductionHypothesis =>
      rw [List.foldr_cons, ← Nat.add_assoc] at inside
      have word :
          readRange window first (first + width) memory =
            .ok
              (window.bytes.extract (window.start + first)
                (window.start + first + width)).toList
              memory := by
        have within : first ≤ first + width ∧ first + width ≤ window.size := by
          omega
        rw [readRange, if_pos within, Nat.add_assoc]
        rfl
      rw [readOperands, bind_of_ok word, bind_of_ok (inductionHypothesis inside)]
      rw [List.foldr_cons, readWords, ← Nat.add_assoc, ← Nat.add_assoc]
      rfl

/-- What stands at an offset of the code is fetched in memory as well. -/
theorem fetch_eq (code : Code) (offset : Nat) :
    fetch code offset memory =
      match code.fetch offset with
      | .past =>
          .error .outOfBounds memory
      | .undecodable source =>
          .error (.failed ⟨offset, .decode source⟩) memory
      | .instr instr _ =>
          .ok (instr, instr.opcode.layout.operandSize) memory := by
  simp only [fetch, Code.fetch, readAt]
  cases present : code.bytes[offset]? with
  | none =>
      rfl
  | some byte =>
      have inside := (Array.getElem?_eq_some_iff.mp present).1
      simp only [pure_bind]
      cases Opcode.ofByte byte with
      | error source =>
          rfl
      | ok opcode =>
          let window : Window := ⟨code.bytes, offset + 1⟩
          simp only [openWindow, if_pos (Nat.succ_le_of_lt inside), pure_bind,
            Layout.decodeOperands]
          by_cases short : window.size < opcode.layout.operandSize
          · have tooFew :
                code.bytes.size - (offset + 1) < opcode.layout.operandSize :=
              short
            rw [if_pos short, if_pos tooFew]
            rfl
          · have enough :
                ¬ code.bytes.size - (offset + 1) <
                  opcode.layout.operandSize :=
              short
            have within :
                0 + opcode.layout.operandWidths.foldr (· + ·) 0 ≤
                  window.size := by
              rw [Nat.zero_add]
              exact Nat.le_of_not_lt short
            rw [if_neg short, if_neg enough,
              bind_of_ok (readOperands_eq within), Nat.zero_add]
            rfl

end MemoryM

/-- A run in memory shows how far the machine's own run has come, and uses no
more cells than there are. -/
structure MemoryProgress.Shows
    (shown : MemoryProgress) (progress : Progress) : Prop where
  same : shown.progress? = some progress
  fits : shown.memory.Fits

namespace Bytecode

variable {bytecode : Bytecode} {offset : Nat} {memory : Memory}

/-- A fetched instruction is executed in memory as it is by the machine. -/
theorem executeAt_mirrors
    {instr : Instr} {next : Nat}
    (fetched : bytecode.code.fetch offset = .instr instr next)
    (fits : memory.Fits) :
    Mirrors offset (bytecode.executeAt offset memory)
      (instr.execute bytecode.constants next memory.machine) := by
  have encodable := (Code.drop_of_fetch fetched).1
  have found :
      MemoryM.fetch bytecode.code offset { memory with current := offset } =
        .ok (instr, instr.opcode.layout.operandSize)
          { memory with current := offset } := by
    rw [MemoryM.fetch_eq, fetched]
  have isNext : next = offset + 1 + instr.opcode.layout.operandSize := by
    rw [Code.next_of_fetch fetched, Instr.size, Nat.add_assoc]
  rw [executeAt, bind_modify, bind_of_ok found, isNext]
  exact instr.executeInMemory_implements encodable bytecode.constants _
    { memory with current := offset } fits

/-- Bytes that are no instruction are not executed in memory either. -/
theorem executeAt_of_undecodable
    {source : DecodeError}
    (found : bytecode.code.fetch offset = .undecodable source) :
    bytecode.executeAt offset memory =
      .error (.failed ⟨offset, .decode source⟩)
        { memory with current := offset } := by
  have failed :
      MemoryM.fetch bytecode.code offset { memory with current := offset } =
        .error (.failed ⟨offset, .decode source⟩)
          { memory with current := offset } := by
    rw [MemoryM.fetch_eq, found]
  rw [executeAt, bind_modify, bind_of_error failed]

/-- A step in memory is the step of the machine there. -/
theorem stepInMemory_shows (offset : Nat) (fits : memory.Fits) :
    (bytecode.stepInMemory offset memory).Shows
      (bytecode.step offset memory.machine) := by
  rw [stepInMemory, step]
  cases found : bytecode.code.fetch offset with
  | past =>
      rw [if_neg (Nat.not_lt.mpr (Code.fetch_eq_past_iff.mp found))]
      exact ⟨rfl, fits⟩
  | undecodable source =>
      have inside : offset < bytecode.code.size := by
        rw [← Nat.not_le, ← Code.fetch_eq_past_iff, found]
        intro isPast
        cases isPast
      rw [if_pos inside, executeAt_of_undecodable found]
      exact ⟨rfl, fits⟩
  | instr instr next =>
      have mirrors := executeAt_mirrors found fits
      simp only [if_pos (Code.lt_size_of_fetch found)]
      generalize bytecode.executeAt offset memory = shown at mirrors
      generalize
        instr.execute bytecode.constants next memory.machine = own at mirrors
      cases mirrors with
      | ok target fitsAfter _ =>
          exact ⟨rfl, fitsAfter⟩
      | failed fault fitsAfter _ =>
          exact ⟨rfl, fitsAfter⟩

/-- A run in memory is the run of the machine there. -/
theorem runInMemoryFrom_shows (fuel : Nat) (fits : memory.Fits) :
    (bytecode.runInMemoryFrom fuel offset memory).Shows
      (bytecode.runFrom fuel offset memory.machine) := by
  induction fuel generalizing offset memory with
  | zero =>
      exact ⟨rfl, fits⟩
  | succ fuel inductionHypothesis =>
      obtain ⟨same, fitsAfter⟩ := bytecode.stepInMemory_shows offset fits
      rw [runInMemoryFrom, runFrom]
      cases shown : bytecode.stepInMemory offset memory with
      | running target after =>
          rw [shown] at same fitsAfter
          rw [← Option.some.inj same]
          exact inductionHypothesis fitsAfter
      | finished after =>
          rw [shown] at same fitsAfter
          rw [← Option.some.inj same]
          exact ⟨rfl, fitsAfter⟩
      | failed error after =>
          rw [shown] at same fitsAfter
          rw [← Option.some.inj same]
          exact ⟨rfl, fitsAfter⟩
      | outOfBounds after =>
          rw [shown] at same
          cases same

/-- A run in memory from the start of the code is that of the machine there. -/
theorem runInMemory_shows (fuel : Nat) (fits : memory.Fits) :
    (bytecode.runInMemory fuel memory).Shows
      (bytecode.run fuel memory.machine) :=
  bytecode.runInMemoryFrom_shows fuel fits

/-- A run of one more step goes on where the run has come to. -/
theorem runInMemoryFrom_succ (fuel : Nat) :
    bytecode.runInMemoryFrom (fuel + 1) offset memory =
      match bytecode.runInMemoryFrom fuel offset memory with
      | .running target reached =>
          bytecode.stepInMemory target reached
      | ended =>
          ended := by
  induction fuel generalizing offset memory with
  | zero =>
      simp only [runInMemoryFrom]
      cases bytecode.stepInMemory offset memory <;> rfl
  | succ fuel inductionHypothesis =>
      rw [runInMemoryFrom, runInMemoryFrom]
      cases bytecode.stepInMemory offset memory with
      | running target after =>
          exact inductionHypothesis
      | finished after | failed error after | outOfBounds after =>
          rfl

/-- A run that goes on has come to the instruction executed last. -/
theorem exists_stage_of_runningInMemory
    {fuel target : Nat} {after : Memory}
    (running :
      bytecode.runInMemory (fuel + 1) memory = .running target after) :
    ∃ last before,
      bytecode.runInMemory fuel memory = .running last before ∧
        bytecode.stepInMemory last before = .running target after := by
  rw [runInMemory, runInMemoryFrom_succ, ← runInMemory] at running
  cases progress : bytecode.runInMemory fuel memory with
  | running last before =>
      rw [progress] at running
      exact ⟨last, before, rfl, running⟩
  | finished before | failed error before | outOfBounds before =>
      rw [progress] at running
      cases running

/-- A run that fails has come to the instruction that fails. -/
theorem exists_stage_of_failedInMemory
    {fuel : Nat} {error : RuntimeError} {after : Memory}
    (failed : bytecode.runInMemory fuel memory = .failed error after) :
    ∃ steps < fuel, ∃ last before,
      bytecode.runInMemory steps memory = .running last before ∧
        bytecode.stepInMemory last before = .failed error after := by
  induction fuel with
  | zero =>
      cases failed
  | succ fuel inductionHypothesis =>
      rw [runInMemory, runInMemoryFrom_succ, ← runInMemory] at failed
      cases progress : bytecode.runInMemory fuel memory with
      | running last before =>
          rw [progress] at failed
          exact ⟨fuel, Nat.lt_succ_self fuel, last, before, progress, failed⟩
      | failed raised before =>
          rw [progress] at failed
          cases failed
          obtain ⟨steps, below, stage⟩ := inductionHypothesis progress
          exact ⟨steps, Nat.lt_succ_of_lt below, stage⟩
      | finished before | outOfBounds before =>
          rw [progress] at failed
          cases failed

/-- A step that goes on keeps the offset of the instruction executed. -/
theorem current_of_stepInMemory
    {target : Nat} {after : Memory} (fits : memory.Fits)
    (stepped : bytecode.stepInMemory offset memory = .running target after) :
    after.current = offset := by
  rw [stepInMemory] at stepped
  split at stepped
  case isFalse =>
    cases stepped
  case isTrue inside =>
    cases found : bytecode.code.fetch offset with
    | past =>
        exact (Nat.not_le.mpr inside (Code.fetch_eq_past_iff.mp found)).elim
    | undecodable source =>
        rw [executeAt_of_undecodable found] at stepped
        cases stepped
    | instr instr next =>
        have mirrors := executeAt_mirrors found fits
        generalize bytecode.executeAt offset memory = shown at mirrors stepped
        generalize
          instr.execute bytecode.constants next memory.machine = own at mirrors
        cases mirrors with
        | ok value fitsAfter keeps =>
            cases stepped
            exact keeps
        | failed fault fitsAfter keeps =>
            cases stepped

/-- A step that fails does so at its offset, as the machine's own step does. -/
theorem step_of_failedInMemory
    {error : RuntimeError} {after : Memory} (fits : memory.Fits)
    (stepped : bytecode.stepInMemory offset memory = .failed error after) :
    bytecode.step offset memory.machine = .failed error after.machine ∧
      error.offset = offset ∧ after.Fits := by
  obtain ⟨same, fitsAfter⟩ := bytecode.stepInMemory_shows offset fits
  rw [stepped] at same fitsAfter
  have failed := (Option.some.inj same).symm
  exact ⟨failed, (exists_of_step_failed failed).1, fitsAfter⟩

/-- A run that goes on uses no more cells than there are. -/
theorem fits_of_runningInMemory
    {fuel : Nat} {reached : Memory} (fits : memory.Fits)
    (running : bytecode.runInMemory fuel memory = .running offset reached) :
    reached.Fits := by
  have fitsThere := (bytecode.runInMemory_shows fuel fits).fits
  rwa [running] at fitsThere

/-- A run that fails has come to the offset of its error, and fails there in one
step. -/
theorem exists_failing_step
    {fuel : Nat} {error : RuntimeError} {after : Memory} (fits : memory.Fits)
    (failed : bytecode.runInMemory fuel memory = .failed error after) :
    ∃ steps < fuel, ∃ before,
      bytecode.runInMemory steps memory = .running error.offset before ∧
        bytecode.stepInMemory error.offset before = .failed error after ∧
        before.Fits := by
  obtain ⟨steps, below, last, before, comes, stops⟩ :=
    exists_stage_of_failedInMemory failed
  have fitsBefore := fits_of_runningInMemory fits comes
  obtain ⟨_, rfl, _⟩ := step_of_failedInMemory fitsBefore stops
  exact ⟨steps, below, before, comes, stops, fitsBefore⟩

end Bytecode

end StackLang
