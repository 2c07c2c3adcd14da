import StackLang.Proofs.Code.Format
import StackLang.Proofs.Code.WellFormed
import StackLang.Proofs.Machine.Runs
import StackLang.Proofs.Machine.StackSafety

namespace StackLang

/-!
# Forward runs

A run over well-formed bytecode goes forward from line to line of the listing,
whatever the machine is like. It therefore ends, after no more steps than there
are bytes.
-/

namespace Code

variable {code : Code} {offset : Nat}

/-- Behind a line is another one, or the end of the instructions. -/
theorem next_of_mem_linesFrom
    {instrs : List Instr} {line : Line}
    (member : line ∈ linesFrom offset instrs) :
    (∃ next ∈ linesFrom offset instrs,
        next.offset = line.offset + line.instr.size) ∨
      line.offset + line.instr.size = offset + codeSize instrs := by
  induction instrs generalizing offset with
  | nil =>
      cases member
  | cons instr rest inductionHypothesis =>
      rw [codeSize_cons, ← Nat.add_assoc]
      rcases List.mem_cons.mp member with rfl | inRest
      · cases rest with
        | nil =>
            exact .inr rfl
        | cons second others =>
            exact .inl ⟨⟨offset + instr.size, second⟩, by simp [linesFrom],
              rfl⟩
      · rcases inductionHypothesis inRest with
          ⟨next, nextMember, isNext⟩ | isEnd
        · exact .inl ⟨next, List.mem_cons_of_mem _ nextMember, isNext⟩
        · exact .inr isEnd

end Code

namespace Bytecode

variable {bytecode : Bytecode} {offset : Nat} {machine : Machine}

/-- A run may come here: a line of the listing, or the end of the code. -/
def Expects (bytecode : Bytecode) (offset : Nat) : Prop :=
  (∃ line ∈ bytecode.code.listing.lines, line.offset = offset) ∨
    bytecode.code.fetch offset = .past

namespace WellFormed

variable (wellFormed : bytecode.WellFormed)

include wellFormed

/-- A run may begin at the start of the code. -/
theorem expects_start : bytecode.Expects 0 := by
  obtain ⟨instrs, consists⟩ :=
    Code.exists_consists_of_complete wellFormed.complete
  cases instrs with
  | nil =>
      exact .inr consists.fetch_end
  | cons instr rest =>
      refine .inl ⟨⟨0, instr⟩, ?_, rfl⟩
      rw [consists.listing_eq]
      simp [linesFrom]

/-- A line shows what is fetched, and a run may come to what is behind it. -/
theorem fetch_line
    {line : Line} (member : line ∈ bytecode.code.listing.lines) :
    bytecode.code.fetch line.offset =
        .instr line.instr (line.offset + line.instr.size) ∧
      bytecode.Expects (line.offset + line.instr.size) := by
  obtain ⟨instrs, consists⟩ :=
    Code.exists_consists_of_complete wellFormed.complete
  have listed (other : Line) :
      other ∈ bytecode.code.listing.lines ↔ other ∈ linesFrom 0 instrs := by
    rw [consists.listing_eq, List.mem_toArray]
  rw [listed] at member
  refine ⟨consists.holds.fetch_of_mem member, ?_⟩
  rcases Code.next_of_mem_linesFrom member with
    ⟨next, nextMember, isNext⟩ | isEnd
  · exact .inl ⟨next, (listed next).mpr nextMember, isNext⟩
  · refine .inr ?_
    rw [isEnd, Nat.zero_add]
    exact consists.fetch_end

/-- One step leads forward, to where a run may come. -/
theorem step_forward
    {target : Nat} {after : Machine}
    (expects : bytecode.Expects offset)
    (stepped : bytecode.step offset machine = .running target after) :
    offset < target ∧ offset < bytecode.code.size ∧
      bytecode.Expects target := by
  obtain ⟨instr, next, fetched, executed⟩ := exists_of_step_running stepped
  rcases expects with ⟨line, member, rfl⟩ | past
  · obtain ⟨fetchedLine, expectsNext⟩ := wellFormed.fetch_line member
    have inside := Code.lt_size_of_fetch fetched
    have behind := Code.lt_next_of_fetch fetched
    rw [fetchedLine] at fetched
    cases fetched
    rcases Instr.target_of_execute executed with ⟨_, rfl⟩ | ⟨jumps, rfl⟩
    · exact ⟨behind, inside, expectsNext⟩
    · obtain ⟨forward, _, lands⟩ :=
        wellFormed.jumpsLand line member (Opcode.eq_of_isJump jumps)
      exact ⟨forward, inside, .inl lands⟩
  · rw [past] at fetched
    cases fetched

/-- A run comes to increasing offsets, to none but lines and the end. -/
theorem stagesFrom_forward
    (fuel : Nat) (machine : Machine) (expects : bytecode.Expects offset) :
    (bytecode.stagesFrom fuel offset machine).Pairwise
        (·.offset < ·.offset) ∧
      ∀ stage ∈ bytecode.stagesFrom fuel offset machine,
        offset ≤ stage.offset ∧ bytecode.Expects stage.offset := by
  induction fuel generalizing offset machine with
  | zero =>
      exact ⟨.nil, nofun⟩
  | succ fuel inductionHypothesis =>
      rw [stagesFrom]
      cases stepped : bytecode.step offset machine with
      | running target after =>
          obtain ⟨forward, _, expectsTarget⟩ :=
            wellFormed.step_forward expects stepped
          obtain ⟨ascends, later⟩ :=
            inductionHypothesis after expectsTarget
          refine ⟨List.pairwise_cons.mpr ⟨?_, ascends⟩, ?_⟩
          · intro stage member
            exact Nat.lt_of_lt_of_le forward (later stage member).1
          · intro stage member
            rcases List.mem_cons.mp member with rfl | inLater
            · exact ⟨Nat.le_refl _, expects⟩
            · obtain ⟨behind, expected⟩ := later stage inLater
              exact ⟨Nat.le_trans (Nat.le_of_lt forward) behind, expected⟩
      | finished after | failed error after =>
          refine ⟨List.pairwise_singleton _ _, ?_⟩
          intro stage member
          rw [List.mem_singleton.mp member]
          exact ⟨Nat.le_refl _, expects⟩

/-- A run ends when it has made more steps than there are bytes ahead. -/
theorem runFrom_ends
    {fuel : Nat} (expects : bytecode.Expects offset)
    (enough : bytecode.code.size - offset < fuel) :
    (bytecode.runFrom fuel offset machine).HasEnded := by
  induction fuel generalizing offset machine with
  | zero =>
      exact (Nat.not_lt_zero _ enough).elim
  | succ fuel inductionHypothesis =>
      rw [runFrom]
      cases stepped : bytecode.step offset machine with
      | running target after =>
          obtain ⟨forward, inside, expectsTarget⟩ :=
            wellFormed.step_forward expects stepped
          have nearer :
              bytecode.code.size - target < bytecode.code.size - offset :=
            Nat.sub_lt_sub_left inside forward
          exact inductionHypothesis expectsTarget
            (Nat.lt_of_lt_of_le nearer (Nat.le_of_lt_succ enough))
      | finished after | failed error after =>
          trivial

/-- What is visited is a line of the listing. -/
theorem line_of_visit?
    {visit : Visit} (expects : bytecode.Expects offset)
    (visited : bytecode.visit? offset machine = some visit) :
    visit.offset = offset ∧ visit.line ∈ bytecode.code.listing.lines := by
  rcases expects with ⟨line, member, rfl⟩ | past
  · rw [visit?, (wellFormed.fetch_line member).1] at visited
    cases visited
    exact ⟨rfl, member⟩
  · rw [visit?, past] at visited
    cases visited

end WellFormed

/-- A run ends, and comes to each line of the listing once at most, from the
first to the last. -/
structure RunsForward (bytecode : Bytecode) (machine : Machine) : Prop where
  /-- The run ends, with no more steps than there are bytes, and one. -/
  ends :
    ∀ fuel, bytecode.code.size < fuel → (bytecode.run fuel machine).HasEnded
  /-- Every visit is made further on than those before it. -/
  ascends :
    ∀ fuel,
      (bytecode.trace fuel machine).toList.Pairwise (·.offset < ·.offset)
  /-- What is visited is a line of the listing. -/
  listed :
    ∀ fuel, ∀ visit ∈ bytecode.trace fuel machine,
      visit.line ∈ bytecode.code.listing.lines
  /-- Where the run comes to before the end of the code, it fetches what is
  listed there, and visits it. -/
  fetched :
    ∀ fuel offset reached,
      bytecode.run fuel machine = .running offset reached →
      bytecode.code.fetch offset = .past ∨
        ∃ line ∈ bytecode.code.listing.lines,
          line.offset = offset ∧
            bytecode.code.fetch offset =
              .instr line.instr (offset + line.instr.size) ∧
            ⟨offset, line.instr, reached.depth⟩ ∈
              bytecode.trace (fuel + 1) machine

/-- Well-formed bytecode runs forward on every machine. -/
theorem WellFormed.runsForward
    (wellFormed : bytecode.WellFormed) (machine : Machine) :
    bytecode.RunsForward machine := by
  have forward (fuel : Nat) :=
    wellFormed.stagesFrom_forward fuel machine wellFormed.expects_start
  have visitedAt {stage : Stage} {visit : Visit}
      (expects : bytecode.Expects stage.offset)
      (visited :
        bytecode.visit? stage.offset stage.machine = some visit) :=
    wellFormed.line_of_visit? expects visited
  constructor
  case ends =>
    intro fuel enough
    exact wellFormed.runFrom_ends wellFormed.expects_start enough
  case ascends =>
    intro fuel
    rw [trace_eq, List.pairwise_filterMap]
    refine (forward fuel).1.imp_of_mem ?_
    intro first second firstMember secondMember before visit visited later
      laterVisited
    have expects := (forward fuel).2
    rw [(visitedAt (expects first firstMember).2 visited).1,
      (visitedAt (expects second secondMember).2 laterVisited).1]
    exact before
  case listed =>
    intro fuel visit member
    rw [← Array.mem_toList_iff, trace_eq, List.mem_filterMap] at member
    obtain ⟨stage, stageMember, visited⟩ := member
    exact (visitedAt ((forward fuel).2 stage stageMember).2 visited).2
  case fetched =>
    intro fuel offset reached running
    have stageMember :
        ⟨offset, reached⟩ ∈ bytecode.stages (fuel + 1) machine :=
      mem_stagesFrom_iff.mpr ⟨fuel, Nat.lt_succ_self fuel, running⟩
    rcases ((forward (fuel + 1)).2 _ stageMember).2 with
      ⟨line, member, isAt⟩ | past
    · have fetched := (wellFormed.fetch_line member).1
      rw [show line.offset = offset from isAt] at fetched
      refine .inr ⟨line, member, isAt, fetched, ?_⟩
      rw [← Array.mem_toList_iff, trace_eq, List.mem_filterMap]
      refine ⟨_, stageMember, ?_⟩
      rw [visit?, fetched]
    · exact .inl past

end Bytecode

/-- The code of every program that is compiled runs forward, whatever stack,
variables and capacity the machine has. -/
theorem runsForward_of_compile
    {program : Program} {bytecode : Bytecode}
    (succeeded : compile program = .ok bytecode) (machine : Machine) :
    bytecode.RunsForward machine := by
  obtain ⟨after, rfl, compiled⟩ := compiled_of_compile succeeded
  exact compiled.wellFormed.runsForward machine

/-- A run over a choice on a machine that has a value on its stack, and room
for one more. -/
theorem runsForward_choice :
    ∃ bytecode : Bytecode,
      compile [.expr (.ifThen (.bool false) [.expr (.int 1)])] =
          .ok bytecode ∧
        bytecode.RunsForward ⟨2, #[.null], #[.int 7], some (.bool true)⟩ := by
  have compiled :
      compile [.expr (.ifThen (.bool false) [.expr (.int 1)])] =
        .ok ⟨⟨#[7, 13, 0, 10, 0, 0, 0, 14, 0, 11, 15, 2]⟩,
          #[.int 1]⟩ :=
    rfl
  exact ⟨_, compiled, runsForward_of_compile compiled _⟩

end StackLang
