import StackLang.Proofs.Compilation.Slots
import StackLang.Proofs.Compilation.Visits

namespace StackLang

/-!
# Lines of a plan

Where a plan is laid out, its lines are those of its parts. Jumps lead forward,
at most to the end of the plan; those of statements lead to an instruction of
theirs. A slot is read in a line only if an earlier line writes it.
-/

namespace Plan

variable {plan : Plan} {start : Nat} {line : Line}

/-- The lines of a plan that is laid out at an offset. -/
def lines (plan : Plan) (start : Nat) : List Line :=
  linesFrom start (plan.layout start)

theorem mem_lines_single {instr : Instr} :
    line ∈ (Plan.single instr).lines start ↔ line = ⟨start, instr⟩ :=
  List.mem_singleton

theorem mem_lines_seq {first second : Plan} :
    line ∈ (Plan.seq first second).lines start ↔
      line ∈ first.lines start ∨ line ∈ second.lines (start + first.size) := by
  simp [lines, layout]

theorem mem_lines_choice {consequence alternative : Plan} :
    line ∈ (Plan.choice consequence alternative).lines start ↔
      line = ⟨start, ⟨.jumpNotTruthy,
          [start + jumpSize + consequence.size + jumpSize]⟩⟩ ∨
        line ∈ consequence.lines (start + jumpSize) ∨
        line = ⟨start + jumpSize + consequence.size, ⟨.jump,
          [start + jumpSize + consequence.size + jumpSize +
            alternative.size]⟩⟩ ∨
        line ∈ alternative.lines
          (start + jumpSize + consequence.size + jumpSize) := by
  simp [lines, layout, linesFrom, Nat.add_assoc]

/-- A line begins in the plan and before its end. -/
theorem bounds_of_mem_lines (member : line ∈ plan.lines start) :
    start ≤ line.offset ∧ line.offset < start + plan.size := by
  have bounds := bounds_of_mem_linesFrom member
  have positive := line.instr.size_pos
  rw [codeSize_layout] at bounds
  omega

/-- Jumps lead forward, and not beyond the end of the plan. -/
theorem jump_forward
    (straight : plan.Straight) (member : line ∈ plan.lines start)
    (isJump : line.instr.opcode.isJump = true) :
    line.offset < line.instr.operand ∧
      line.instr.operand ≤ start + plan.size := by
  induction plan generalizing start with
  | empty =>
      cases member
  | single instr =>
      rw [mem_lines_single] at member
      subst member
      rw [show instr.opcode.isJump = false from straight] at isJump
      cases isJump
  | seq first second firstHypothesis secondHypothesis =>
      rw [size]
      rcases mem_lines_seq.mp member with inFirst | inSecond
      · have bounds := firstHypothesis straight.1 inFirst
        omega
      · have bounds := secondHypothesis straight.2 inSecond
        omega
  | choice consequence alternative consequenceHypothesis
      alternativeHypothesis =>
      rw [size]
      rcases mem_lines_choice.mp member with
        rfl | inConsequence | rfl | inAlternative
      · simp only [Instr.operand, List.headD_cons, jumpSize]
        omega
      · have bounds := consequenceHypothesis straight.1 inConsequence
        omega
      · simp only [Instr.operand, List.headD_cons, jumpSize]
        omega
      · have bounds := alternativeHypothesis straight.2 inAlternative
        omega

/-- No jump of the plan leads to its end. -/
def Closed : Plan → Prop
  | .empty | .single _ =>
      True
  | .seq first second =>
      (first.Closed ∨ 0 < second.size) ∧ second.Closed
  | .choice _ _ =>
      False

/-- The jumps of a closed plan lead to offsets before its end. -/
theorem Closed.operand_lt
    (closed : plan.Closed) (straight : plan.Straight)
    (member : line ∈ plan.lines start)
    (isJump : line.instr.opcode.isJump = true) :
    line.instr.operand < start + plan.size := by
  induction plan generalizing start with
  | empty =>
      cases member
  | single instr =>
      rw [mem_lines_single] at member
      subst member
      rw [show instr.opcode.isJump = false from straight] at isJump
      cases isJump
  | seq first second firstHypothesis secondHypothesis =>
      rw [size]
      rcases mem_lines_seq.mp member with inFirst | inSecond
      · rcases closed.1 with firstClosed | secondFollows
        · have bound := firstHypothesis firstClosed straight.1 inFirst
          omega
        · have bounds := jump_forward straight.1 inFirst isJump
          omega
      · have bound := secondHypothesis closed.2 straight.2 inSecond
        omega
  | choice _ _ _ _ =>
      exact closed.elim

/-- A line shows what a run visits there. -/
theorem exists_visit_of_mem_lines
    (depth : Nat) (member : line ∈ plan.lines start) :
    ∃ visit ∈ plan.visits start depth, visit.line = line := by
  rw [lines, ← plan.map_line_visits start depth] at member
  exact List.mem_map.mp member

/-- The jumps of a closed plan lead to lines of the plan. -/
theorem Closed.exists_target
    {pool before after : Nat}
    (closed : plan.Closed) (balanced : plan.Balanced pool before after)
    (member : line ∈ plan.lines start)
    (isJump : line.instr.opcode.isJump = true) :
    ∃ target ∈ plan.lines start, target.offset = line.instr.operand := by
  have inside := closed.operand_lt balanced.straight member isJump
  obtain ⟨visit, visitMember, rfl⟩ := exists_visit_of_mem_lines before member
  have admits :=
    (balanced.foresees start visitMember).admits visit.instr.operand
      (.inr ⟨isJump, rfl⟩)
  rcases admits with ⟨target, targetMember, isAt, _⟩ | ⟨isEnd, _⟩
  · refine ⟨target.line, ?_, isAt⟩
    rw [lines, ← plan.map_line_visits start before]
    exact List.mem_map_of_mem targetMember
  · exact (Nat.ne_of_lt inside isEnd).elim

/-- Where a condition is falsy, a run goes on right behind a jump. -/
theorem exists_jump_before_alternative
    (straight : plan.Straight) (member : line ∈ plan.lines start)
    (isConditional : line.instr.opcode = .jumpNotTruthy) :
    ∃ jump ∈ plan.lines start,
      jump.instr.opcode = .jump ∧
        line.instr.operand = jump.offset + jump.instr.size := by
  induction plan generalizing start with
  | empty =>
      cases member
  | single instr =>
      rw [mem_lines_single] at member
      subst member
      have noJump : instr.opcode.isJump = false := straight
      rw [show instr.opcode = .jumpNotTruthy from isConditional] at noJump
      cases noJump
  | seq first second firstHypothesis secondHypothesis =>
      rcases mem_lines_seq.mp member with inFirst | inSecond
      · obtain ⟨jump, jumpMember, found⟩ :=
          firstHypothesis straight.1 inFirst
        exact ⟨jump, mem_lines_seq.mpr (.inl jumpMember), found⟩
      · obtain ⟨jump, jumpMember, found⟩ :=
          secondHypothesis straight.2 inSecond
        exact ⟨jump, mem_lines_seq.mpr (.inr jumpMember), found⟩
  | choice consequence alternative consequenceHypothesis
      alternativeHypothesis =>
      rcases mem_lines_choice.mp member with
        rfl | inConsequence | rfl | inAlternative
      · exact ⟨_, mem_lines_choice.mpr (.inr (.inr (.inl rfl))), rfl, rfl⟩
      · obtain ⟨jump, jumpMember, found⟩ :=
          consequenceHypothesis straight.1 inConsequence
        exact ⟨jump, mem_lines_choice.mpr (.inr (.inl jumpMember)), found⟩
      · cases isConditional
      · obtain ⟨jump, jumpMember, found⟩ :=
          alternativeHypothesis straight.2 inAlternative
        exact ⟨jump, mem_lines_choice.mpr (.inr (.inr (.inr jumpMember))),
          found⟩

namespace WritesSlots

variable {slot next : Nat}

/-- Every slot that the plan writes is written by one of its lines. -/
theorem exists_write
    (writes : plan.WritesSlots slot next) {index : Nat}
    (fromFirst : slot ≤ index) (beforeNext : index < next) :
    ∃ line ∈ plan.lines start,
      line.instr = ⟨.setGlobal, [index]⟩ := by
  induction writes generalizing start with
  | empty =>
      omega
  | write slot =>
      have isSlot : index = slot := by omega
      subst isSlot
      exact ⟨_, mem_lines_single.mpr rfl, rfl⟩
  | read =>
      omega
  | other =>
      omega
  | @seq first second slot middle next _ _ firstHypothesis
      secondHypothesis =>
      by_cases early : index < middle
      · obtain ⟨line, member, found⟩ := firstHypothesis fromFirst early
        exact ⟨line, mem_lines_seq.mpr (.inl member), found⟩
      · obtain ⟨line, member, found⟩ :=
          secondHypothesis (Nat.le_of_not_lt early) beforeNext
        exact ⟨line, mem_lines_seq.mpr (.inr member), found⟩
  | @choice consequence alternative slot middle next _ _
      consequenceHypothesis alternativeHypothesis =>
      by_cases early : index < middle
      · obtain ⟨line, member, found⟩ :=
          consequenceHypothesis fromFirst early
        exact ⟨line, mem_lines_choice.mpr (.inr (.inl member)), found⟩
      · obtain ⟨line, member, found⟩ :=
          alternativeHypothesis (Nat.le_of_not_lt early) beforeNext
        exact ⟨line, mem_lines_choice.mpr (.inr (.inr (.inr member))),
          found⟩

/-- The slot that a line reads was written before the plan, or is written in an
earlier one of these lines. -/
def WrittenBefore (slot : Nat) (lines : List Line) (line : Line) : Prop :=
  line.instr.operand < slot ∨
    ∃ earlier ∈ lines,
      earlier.offset < line.offset ∧
        earlier.instr = ⟨.setGlobal, [line.instr.operand]⟩

theorem WrittenBefore.mono
    {fewer more : List Line} (written : WrittenBefore slot fewer line)
    (included : ∀ other ∈ fewer, other ∈ more) :
    WrittenBefore slot more line := by
  rcases written with below | ⟨earlier, member, found⟩
  · exact .inl below
  · exact .inr ⟨earlier, included earlier member, found⟩

/-- What a part behind this plan reads is written in it, in the part or before
both. -/
theorem writtenBefore_behind
    (writes : plan.WritesSlots slot next) {own lines : List Line}
    (behind : start + plan.size ≤ line.offset)
    (written : WrittenBefore next own line)
    (includedPlan : ∀ other ∈ plan.lines start, other ∈ lines)
    (includedOwn : ∀ other ∈ own, other ∈ lines) :
    WrittenBefore slot lines line := by
  rcases written with below | ⟨earlier, member, found⟩
  · by_cases early : line.instr.operand < slot
    · exact .inl early
    · obtain ⟨write, writeMember, isWrite⟩ :=
        writes.exists_write (Nat.le_of_not_lt early) below
      have writeBounds := bounds_of_mem_lines writeMember
      exact .inr ⟨write, includedPlan write writeMember,
        Nat.lt_of_lt_of_le writeBounds.2 behind, isWrite⟩
  · exact .inr ⟨earlier, includedOwn earlier member, found⟩

/-- A slot is read that was written before the plan or in an earlier line. -/
theorem written_before_read
    (writes : plan.WritesSlots slot next) (member : line ∈ plan.lines start)
    (reads : line.instr.opcode = .getGlobal) :
    WrittenBefore slot (plan.lines start) line := by
  induction writes generalizing start with
  | empty =>
      cases member
  | write =>
      rw [mem_lines_single] at member
      subst member
      cases reads
  | read written =>
      rw [mem_lines_single] at member
      subst member
      exact .inl written
  | other _ noRead =>
      rw [mem_lines_single] at member
      subst member
      exact (noRead reads).elim
  | seq firstWrites _ firstHypothesis secondHypothesis =>
      rcases mem_lines_seq.mp member with inFirst | inSecond
      · apply (firstHypothesis inFirst).mono
        intro other otherMember
        exact mem_lines_seq.mpr (.inl otherMember)
      · have bounds := bounds_of_mem_lines inSecond
        apply firstWrites.writtenBefore_behind bounds.1
          (secondHypothesis inSecond)
        · intro other otherMember
          exact mem_lines_seq.mpr (.inl otherMember)
        · intro other otherMember
          exact mem_lines_seq.mpr (.inr otherMember)
  | choice consequenceWrites _ consequenceHypothesis
      alternativeHypothesis =>
      rcases mem_lines_choice.mp member with
        rfl | inConsequence | rfl | inAlternative
      · cases reads
      · apply (consequenceHypothesis inConsequence).mono
        intro other otherMember
        exact mem_lines_choice.mpr (.inr (.inl otherMember))
      · cases reads
      -- Earlier in the code is all that counts: a run that comes to the
      -- alternative does not execute what the consequence writes.
      · have bounds := bounds_of_mem_lines inAlternative
        apply consequenceWrites.writtenBefore_behind
          (Nat.le_trans (Nat.le_add_right _ _) bounds.1)
          (alternativeHypothesis inAlternative)
        · intro other otherMember
          exact mem_lines_choice.mpr (.inr (.inl otherMember))
        · intro other otherMember
          exact mem_lines_choice.mpr (.inr (.inr (.inr otherMember)))

end WritesSlots

end Plan

end StackLang
