import StackLang.Machine.Trace
import StackLang.Proofs.Compilation.Balance

namespace StackLang

/-!
# Visits of a plan

What a run can visit is read off the plan: every instruction with its offset and
the depth of the stack before it, whichever way the run takes. The visits of a
balanced plan are closed: each leads to a visit or to the end, at its depth.
-/

/-- The line of a listing that shows the visited instruction. -/
def Visit.line (visit : Visit) : Line where
  offset := visit.offset
  instr := visit.instr

/-- The depth of the stack behind the visited instruction. -/
def Visit.depthAfter (visit : Visit) : Nat :=
  visit.depth - visit.instr.opcode.pops + visit.instr.opcode.pushes

/-- A run can go on at this offset: behind the instruction, unless it is an
unconditional jump, or at the target of a jump. -/
def Visit.LeadsTo (visit : Visit) (target : Nat) : Prop :=
  visit.instr.opcode ≠ .jump ∧ target = visit.offset + visit.instr.size ∨
    visit.instr.opcode.isJump = true ∧ target = visit.instr.operand

namespace Plan

/-- The depth of the stack behind a plan that is begun at a depth. -/
def depthAfter (depth : Nat) : Plan → Nat
  | .empty =>
      depth
  | .single instr =>
      depth - instr.opcode.pops + instr.opcode.pushes
  | .seq first second =>
      second.depthAfter (first.depthAfter depth)
  | .choice consequence _ =>
      consequence.depthAfter (depth - 1)

/-- What runs visit in a plan that is laid out at an offset and begun at a
depth, whichever way they take. -/
def visits (offset depth : Nat) : Plan → List Visit
  | .empty =>
      []
  | .single instr =>
      [⟨offset, instr, depth⟩]
  | .seq first second =>
      first.visits offset depth ++
        second.visits (offset + first.size) (first.depthAfter depth)
  | .choice consequence alternative =>
      let toEnd := offset + jumpSize + consequence.size
      let start := toEnd + jumpSize
      ⟨offset, ⟨.jumpNotTruthy, [start]⟩, depth⟩ ::
          consequence.visits (offset + jumpSize) (depth - 1) ++
        ⟨toEnd, ⟨.jump, [start + alternative.size]⟩,
            consequence.depthAfter (depth - 1)⟩ ::
          alternative.visits start (depth - 1)

/-- A run comes to this offset at this depth: at a visit, or at the end. -/
def Admits (plan : Plan) (start depth offset found : Nat) : Prop :=
  (∃ visit ∈ plan.visits start depth,
      visit.offset = offset ∧ visit.depth = found) ∨
    (offset = start + plan.size ∧ found = plan.depthAfter depth)

/-- The visits are the lines of the layout, one after the other. -/
theorem map_line_visits (plan : Plan) (offset depth : Nat) :
    (plan.visits offset depth).map Visit.line =
      linesFrom offset (plan.layout offset) := by
  induction plan generalizing offset depth with
  | empty =>
      rfl
  | single instr =>
      rfl
  | seq first second firstHypothesis secondHypothesis =>
      simp [visits, layout, firstHypothesis, secondHypothesis]
  | choice consequence alternative consequenceHypothesis
      alternativeHypothesis =>
      simp [visits, layout, linesFrom, Visit.line, consequenceHypothesis,
        alternativeHypothesis, Nat.add_assoc]

namespace Admits

variable {first second consequence alternative : Plan}
variable {start depth offset found : Nat}

/-- The end of a plan is admitted at the depth behind the plan. -/
theorem atEnd {plan : Plan} :
    plan.Admits start depth (start + plan.size) (plan.depthAfter depth) :=
  .inr ⟨rfl, rfl⟩

theorem seqRight
    (admits :
      second.Admits (start + first.size) (first.depthAfter depth)
        offset found) :
    (Plan.seq first second).Admits start depth offset found := by
  rcases admits with ⟨visit, member, isAt⟩ | ⟨isEnd, atDepth⟩
  · exact .inl ⟨visit, List.mem_append_right _ member, isAt⟩
  · exact .inr ⟨by rw [isEnd, size, Nat.add_assoc], atDepth⟩

/-- The start of a plan is admitted, also if the plan is empty. -/
theorem atStart (plan : Plan) :
    plan.Admits start depth start depth := by
  induction plan generalizing start depth with
  | empty =>
      exact .inr ⟨rfl, rfl⟩
  | single instr =>
      exact .inl ⟨_, List.mem_singleton_self _, rfl, rfl⟩
  | seq first second firstHypothesis secondHypothesis =>
      have firstAdmits : first.Admits start depth start depth :=
        firstHypothesis
      rcases firstAdmits with
        ⟨visit, member, isAt⟩ | ⟨isEnd, atDepth⟩
      · exact .inl ⟨visit, List.mem_append_left _ member, isAt⟩
      -- The first part has no instruction: its end, where the second part
      -- begins, is the start.
      · have admitted :
            (Plan.seq first second).Admits start depth
              (start + first.size) (first.depthAfter depth) :=
          .seqRight secondHypothesis
        rwa [← isEnd, ← atDepth] at admitted
  | choice consequence alternative _ _ =>
      exact .inl ⟨_, List.mem_cons_self, rfl, rfl⟩

theorem seqLeft
    (admits : first.Admits start depth offset found) :
    (Plan.seq first second).Admits start depth offset found := by
  rcases admits with ⟨visit, member, isAt⟩ | ⟨rfl, rfl⟩
  · exact .inl ⟨visit, List.mem_append_left _ member, isAt⟩
  · exact .seqRight (.atStart second)

theorem choiceLeft
    (admits :
      consequence.Admits (start + jumpSize) (depth - 1) offset found) :
    (Plan.choice consequence alternative).Admits start depth offset
      found := by
  rcases admits with ⟨visit, member, isAt⟩ | ⟨rfl, rfl⟩
  · refine .inl ⟨visit, ?_, isAt⟩
    exact List.mem_append_left _ (List.mem_cons_of_mem _ member)
  · have member :
        (Visit.mk (start + jumpSize + consequence.size)
            ⟨.jump,
              [start + jumpSize + consequence.size + jumpSize +
                alternative.size]⟩
            (consequence.depthAfter (depth - 1))) ∈
          (Plan.choice consequence alternative).visits start depth :=
      List.mem_append_right _ List.mem_cons_self
    exact .inl ⟨_, member, rfl, rfl⟩

theorem choiceRight
    (sameDepth :
      alternative.depthAfter (depth - 1) =
        consequence.depthAfter (depth - 1))
    (admits :
      alternative.Admits (start + jumpSize + consequence.size + jumpSize)
        (depth - 1) offset found) :
    (Plan.choice consequence alternative).Admits start depth offset
      found := by
  rcases admits with ⟨visit, member, isAt⟩ | ⟨isEnd, atDepth⟩
  · refine .inl ⟨visit, ?_, isAt⟩
    exact List.mem_append_right _ (List.mem_cons_of_mem _ member)
  · refine .inr ⟨?_, atDepth.trans sameDepth⟩
    rw [isEnd, size]
    omega

end Admits

/-- What is foreseen for a visit: the values and the constant that it takes are
there, and wherever it leads is admitted. -/
structure Foresees
    (plan : Plan) (pool start depth : Nat) (visit : Visit) : Prop where
  enough : visit.instr.opcode.pops ≤ visit.depth
  pooled : visit.instr.opcode = .constant → visit.instr.operand < pool
  admits :
    ∀ target, visit.LeadsTo target →
      plan.Admits start depth target visit.depthAfter

/-- A plan foresees what a part of it foresees. -/
theorem Foresees.mono
    {part plan : Plan} {pool partStart partDepth start depth : Nat}
    {visit : Visit}
    (foresees : part.Foresees pool partStart partDepth visit)
    (lifts :
      ∀ {offset found}, part.Admits partStart partDepth offset found →
        plan.Admits start depth offset found) :
    plan.Foresees pool start depth visit :=
  ⟨foresees.enough, foresees.pooled,
    fun target leads => lifts (foresees.admits target leads)⟩

namespace Balanced

variable {pool before after : Nat} {plan : Plan}

/-- A balanced plan takes the stack to the depth behind it. -/
theorem depthAfter_eq (balanced : plan.Balanced pool before after) :
    plan.depthAfter before = after := by
  induction balanced with
  | empty =>
      rfl
  | single depth _ _ takes leaves =>
      rw [depthAfter]
      omega
  | seq _ _ firstHypothesis secondHypothesis =>
      rw [depthAfter, firstHypothesis, secondHypothesis]
  | choice _ _ consequenceHypothesis _ =>
      exact consequenceHypothesis

/-- Every visit of a balanced plan is foreseen. -/
theorem foresees
    (balanced : plan.Balanced pool before after) (start : Nat) {visit : Visit}
    (member : visit ∈ plan.visits start before) :
    plan.Foresees pool start before visit := by
  induction balanced generalizing start with
  | empty =>
      cases member
  | @single instr before _ depth straight pooled takes leaves =>
      have isVisit := List.mem_singleton.mp member
      subst isVisit
      refine ⟨?_, pooled, ?_⟩
      · change instr.opcode.pops ≤ before
        omega
      · rintro target (⟨_, rfl⟩ | ⟨isJump, _⟩)
        · exact .atEnd
        · rw [straight] at isJump
          cases isJump
  | seq firstBalanced _ firstHypothesis secondHypothesis =>
      rcases List.mem_append.mp member with inFirst | inSecond
      · exact (firstHypothesis start inFirst).mono .seqLeft
      · rw [firstBalanced.depthAfter_eq] at inSecond
        have foreseen := secondHypothesis _ inSecond
        rw [← firstBalanced.depthAfter_eq] at foreseen
        exact foreseen.mono .seqRight
  | @choice consequence alternative depth _ consequenceBalanced
      alternativeBalanced consequenceHypothesis alternativeHypothesis =>
      have sameDepth :
          alternative.depthAfter (depth + 1 - 1) =
            consequence.depthAfter (depth + 1 - 1) :=
        alternativeBalanced.depthAfter_eq.trans
          consequenceBalanced.depthAfter_eq.symm
      have liftConsequence {offset found : Nat}
          (admits :
            consequence.Admits (start + jumpSize) depth offset found) :
          (Plan.choice consequence alternative).Admits start (depth + 1)
            offset found :=
        .choiceLeft admits
      rcases List.mem_append.mp member with inFirst | inSecond
      · rcases List.mem_cons.mp inFirst with rfl | inConsequence
        · refine ⟨Nat.succ_le_succ (Nat.zero_le _), nofun, ?_⟩
          rintro target (⟨_, rfl⟩ | ⟨_, rfl⟩)
          · exact .choiceLeft (.atStart _)
          · exact .choiceRight sameDepth (.atStart _)
        · exact (consequenceHypothesis _ inConsequence).mono
            liftConsequence
      · rcases List.mem_cons.mp inSecond with rfl | inAlternative
        -- The jump behind the consequence leads to the end of the choice,
        -- where the alternative arrives at the same depth.
        · refine ⟨Nat.zero_le _, nofun, ?_⟩
          rintro target (⟨notJump, _⟩ | ⟨_, rfl⟩)
          · exact (notJump rfl).elim
          · refine .choiceRight sameDepth (.inr ⟨rfl, ?_⟩)
            exact sameDepth.symm
        · exact (alternativeHypothesis _ inAlternative).mono
            (.choiceRight sameDepth)

end Balanced

/-- Visits are made at increasing offsets. -/
theorem pairwise_visits (plan : Plan) (start depth : Nat) :
    (plan.visits start depth).Pairwise (·.offset < ·.offset) := by
  have lines := pairwise_linesFrom start (plan.layout start)
  rw [← map_line_visits plan start depth, List.pairwise_map] at lines
  exact lines

/-- Every visit is made before the end of the plan. -/
theorem offset_lt_of_mem_visits
    {plan : Plan} {start depth : Nat} {visit : Visit}
    (member : visit ∈ plan.visits start depth) :
    visit.offset < start + plan.size := by
  have line : visit.line ∈ linesFrom start (plan.layout start) := by
    rw [← map_line_visits plan start depth]
    exact List.mem_map_of_mem member
  have bounds := bounds_of_mem_linesFrom line
  have positive := visit.instr.size_pos
  rw [codeSize_layout] at bounds
  simp only [Visit.line] at bounds
  omega

/-- An offset is come to at one depth only. -/
theorem Admits.depth_unique
    {plan : Plan} {start depth offset first second : Nat}
    (admitsFirst : plan.Admits start depth offset first)
    (admitsSecond : plan.Admits start depth offset second) :
    first = second := by
  rcases admitsFirst with ⟨visit, member, rfl, rfl⟩ | ⟨rfl, rfl⟩
  · rcases admitsSecond with ⟨other, otherMember, same, rfl⟩ | ⟨isEnd, _⟩
    · have ordered := pairwise_visits plan start depth
      obtain ⟨left, leftBound, rfl⟩ := List.getElem_of_mem member
      obtain ⟨right, rightBound, rfl⟩ := List.getElem_of_mem otherMember
      rw [List.pairwise_iff_getElem] at ordered
      rcases Nat.lt_trichotomy left right with less | rfl | greater
      · have apart := ordered left right leftBound rightBound less
        omega
      · rfl
      · have apart := ordered right left rightBound leftBound greater
        omega
    · have before := offset_lt_of_mem_visits member
      omega
  · rcases admitsSecond with ⟨other, otherMember, same, _⟩ | ⟨_, rfl⟩
    · have before := offset_lt_of_mem_visits otherMember
      omega
    · rfl

/-- The depth at which runs come to an offset, if they do. -/
def depthAt (plan : Plan) (start depth offset : Nat) : Nat :=
  match (plan.visits start depth).find? (·.offset = offset) with
  | some visit =>
      visit.depth
  | none =>
      plan.depthAfter depth

/-- Runs come to an offset at the depth that is found for it. -/
theorem Admits.eq_depthAt
    {plan : Plan} {start depth offset found : Nat}
    (admits : plan.Admits start depth offset found) :
    found = plan.depthAt start depth offset := by
  rw [depthAt]
  split
  case h_1 visit search =>
    have isAt := List.find?_some search
    have admitsVisit : plan.Admits start depth offset visit.depth :=
      .inl ⟨visit, List.mem_of_find?_eq_some search, by simpa using isAt,
        rfl⟩
    exact admits.depth_unique admitsVisit
  case h_2 search =>
    rw [List.find?_eq_none] at search
    rcases admits with ⟨visit, member, isAt, _⟩ | ⟨_, atDepth⟩
    · exact (search visit member (by simpa using isAt)).elim
    · exact atDepth

end Plan

end StackLang
