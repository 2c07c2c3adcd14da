import StackLang.Proofs.Compilation.Jumps

namespace StackLang

/-!
# Well-formed bytecode

Bytecode is well-formed if its code is nothing but instructions, and every
operand refers to something that is there: a jump to an instruction further on,
a constant to the pool, and a read to a slot that is written further up.
-/

namespace Bytecode

/-- The code is made of instructions whose operands refer to something. -/
structure WellFormed (bytecode : Bytecode) : Prop where
  /-- The listing comes to the end of the code without an error. -/
  complete : bytecode.code.listing.fault = none
  /-- The bytes of the code are those of the listed instructions. -/
  covers :
    bytecode.code.bytes.toList =
      encodeAll (bytecode.code.listing.lines.toList.map Line.instr)
  /-- A jump leads forward, to an instruction of the code. -/
  jumpsLand :
    ∀ line ∈ bytecode.code.listing.lines,
      line.instr.opcode = .jump ∨ line.instr.opcode = .jumpNotTruthy →
        line.offset < line.instr.operand ∧
          line.instr.operand < bytecode.code.size ∧
          ∃ target ∈ bytecode.code.listing.lines,
            target.offset = line.instr.operand
  /-- A conditional jump leads right behind an unconditional one. -/
  alternativesFollow :
    ∀ line ∈ bytecode.code.listing.lines,
      line.instr.opcode = .jumpNotTruthy →
        ∃ jump ∈ bytecode.code.listing.lines,
          jump.instr.opcode = .jump ∧
            line.instr.operand = jump.offset + jump.instr.size
  /-- A constant is in the pool. -/
  constantsPooled :
    ∀ line ∈ bytecode.code.listing.lines,
      line.instr.opcode = .constant →
        line.instr.operand < bytecode.constants.size
  /-- A slot that is read is written earlier in the code. -/
  readsWritten :
    ∀ line ∈ bytecode.code.listing.lines,
      line.instr.opcode = .getGlobal →
        ∃ earlier ∈ bytecode.code.listing.lines,
          earlier.offset < line.offset ∧
            earlier.instr.opcode = .setGlobal ∧
            earlier.instr.operand = line.instr.operand

end Bytecode

mutual

/-- No jump of a statement leads to its end. -/
theorem Stmt.plan_closed {numbering : Numbering} :
    (statement : Stmt) → (statement.plan numbering).Closed
  | .define _ _ => by
      exact ⟨.inr (Instr.size_pos _), trivial⟩
  | .ret _ => by
      exact trivial
  | .expr _ => by
      exact ⟨.inr (Instr.size_pos _), trivial⟩
  | .block statements => by
      exact planStatements_closed statements
termination_by structural statement => statement

/-- No jump of statements leads to their end. -/
theorem planStatements_closed {numbering : Numbering} :
    (statements : List Stmt) → (planStatements numbering statements).Closed
  | [] => by
      exact trivial
  | statement :: rest => by
      exact ⟨.inl statement.plan_closed, planStatements_closed rest⟩
termination_by structural statements => statements

end

/-- Code that consists of a plan is well-formed, if the plan is balanced, no
jump leads to its end and its slots are written before they are read. -/
theorem Bytecode.WellFormed.of_plan
    {plan : Plan} {bytecode : Bytecode} {slots : Nat}
    (consists : bytecode.code.Consists (plan.layout 0))
    (balanced : plan.Balanced bytecode.constants.size 0 0)
    (closed : plan.Closed)
    (writes : plan.WritesSlots 0 slots) :
    bytecode.WellFormed := by
  have listing := consists.listing_eq
  have listed (line : Line) :
      line ∈ bytecode.code.listing.lines ↔ line ∈ plan.lines 0 := by
    rw [listing, List.mem_toArray, Plan.lines]
  refine
    { complete := ?complete
      covers := ?covers
      jumpsLand := ?jumpsLand
      alternativesFollow := ?alternativesFollow
      constantsPooled := ?constantsPooled
      readsWritten := ?readsWritten }
  case complete =>
    rw [listing]
  case covers =>
    rw [listing, consists.bytes, map_instr_linesFrom]
  case jumpsLand =>
    intro line member isJump
    rw [listed] at member
    have jumps : line.instr.opcode.isJump = true := by
      rcases isJump with isJump | isJump <;> rw [isJump] <;> rfl
    have forward := Plan.jump_forward balanced.straight member jumps
    have inside := closed.operand_lt balanced.straight member jumps
    rw [Nat.zero_add, ← plan.codeSize_layout 0, ← consists.size_eq] at inside
    obtain ⟨target, targetMember, isAt⟩ :=
      closed.exists_target balanced member jumps
    exact ⟨forward.1, inside, target, (listed target).mpr targetMember, isAt⟩
  case alternativesFollow =>
    intro line member isConditional
    rw [listed] at member
    obtain ⟨jump, jumpMember, found⟩ :=
      Plan.exists_jump_before_alternative balanced.straight member
        isConditional
    exact ⟨jump, (listed jump).mpr jumpMember, found⟩
  case constantsPooled =>
    intro line member isConstant
    rw [listed] at member
    obtain ⟨visit, visitMember, rfl⟩ :=
      Plan.exists_visit_of_mem_lines 0 member
    exact (balanced.foresees 0 visitMember).pooled isConstant
  case readsWritten =>
    intro line member reads
    rw [listed] at member
    rcases writes.written_before_read member reads with
      below | ⟨earlier, earlierMember, before, written⟩
    · exact (Nat.not_lt_zero _ below).elim
    · refine ⟨earlier, (listed earlier).mpr earlierMember, before, ?_, ?_⟩
      · rw [written]
      · rw [written]
        rfl

/-- What was compiled from nothing is well-formed. -/
theorem Compiled.wellFormed
    {program : Program} {after : Compilation}
    (compiled : Compiled .empty #[] program after) :
    after.bytecode.WellFormed :=
  .of_plan compiled.consists compiled.balanced
    (planStatements_closed program)
    (planStatements_writesSlots program compiled.accepted
      Scope.bounded_empty)

/-- Every program that is compiled becomes well-formed bytecode. -/
theorem wellFormed_of_compile
    {program : Program} {bytecode : Bytecode}
    (succeeded : compile program = .ok bytecode) :
    bytecode.WellFormed := by
  obtain ⟨after, rfl, compiled⟩ := compiled_of_compile succeeded
  exact compiled.wellFormed

/-- A definition by a choice: both jumps lead forward, the last one to the
instruction that writes the slot. -/
theorem wellFormed_choice :
    ∃ bytecode : Bytecode,
      bytecode =
          ⟨⟨#[6, 13, 0, 10, 0, 0, 0, 14, 0, 11, 15, 17, 0, 0]⟩,
            #[.int 1]⟩ ∧
        compile [.define "a" (.ifThen (.bool true) [.expr (.int 1)])] =
          .ok bytecode ∧
        bytecode.WellFormed := by
  have compiled :
      compile [.define "a" (.ifThen (.bool true) [.expr (.int 1)])] =
        .ok ⟨⟨#[6, 13, 0, 10, 0, 0, 0, 14, 0, 11, 15, 17, 0, 0]⟩,
          #[.int 1]⟩ :=
    rfl
  exact ⟨_, rfl, compiled, wellFormed_of_compile compiled⟩

end StackLang
