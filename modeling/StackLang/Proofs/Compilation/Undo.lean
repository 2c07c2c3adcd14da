import StackLang.Compilation.Journal
import StackLang.Proofs.Compilation.Calls
import StackLang.Proofs.Compilation.Journaling

namespace StackLang

open CompileM

/-!
# One instruction is taken back

Only arms take an instruction back, and only one. Each arm begins behind a jump
and ends in a value, so that an instruction is emitted between any two that are
taken back, even where the last part of an arm is a choice itself. The records
of the last two instructions are therefore all that has to be kept.
-/

namespace KeepsHistory

/-- A block keeps the value of its last statement, or leaves null. -/
theorem block
    {statements : CompileM PUnit}
    (keeps : KeepsHistory StartsAnywhere statements AddsStatements) :
    KeepsHistory StartsArm (emitBlock statements) AddsValue := by
  rintro origin made instrs before leads ⟨inArm, begins⟩
  refine leads.bind keeps trivial ?_
  intro more added middle leadsOn closed isAdded
  have pads (notPop : lastOpcode? (instrs ++ added) ≠ some .pop) :
      origin.Leaves made instrs AddsValue (keepValue middle) := by
    have padKeeps : KeepsHistory StartsAnywhere (emit .pushNull []) AddsValue :=
      .bare nofun rfl
    rw [leadsOn.keepValue_eq_emit notPop]
    exact (padKeeps origin _ _ middle leadsOn trivial).behind closed
      fun _ _ value => YieldsValue.append value added
  cases isAdded with
  | nothing =>
      exact pads (by simpa using begins)
  | value value =>
      obtain ⟨leading, kept, rfl, notPop⟩ := value
      exact pads (by simpa using notPop)
  | @discarded more _ offset value =>
      obtain ⟨leading, kept, rfl, notPop⟩ := value
      simp only [← List.append_assoc] at leadsOn closed
      -- The pop that ends the code is the one that the last edit emitted.
      obtain ⟨_, sameInstrs, isOffset⟩ := leadsOn.history.offset_of_emit
      obtain ⟨rfl, _⟩ := List.append_inj' sameInstrs rfl
      subst isOffset
      have sameJumps : openJumps (made ++ more) = openJumps made := by
        rwa [openJumps_concat] at closed
      have endsArm := inArm.append (congrArg List.head? sameJumps)
      obtain ⟨after, succeeded, leadsFurther⟩ :=
        leadsOn.keepValue_retracts notPop ⟨_, endsArm, rfl⟩
      rw [succeeded]
      simp only [List.append_assoc] at leadsFurther
      refine ⟨_, _, leadsFurther, ?_, leading, kept, rfl, notPop⟩
      simp only [← List.append_assoc]
      rw [openJumps_concat]
      exact closed

section Choice

variable {condition consequence alternative : CompileM PUnit}

/-- Behind a consequence whose jumps wait for their targets, the first target is
filled in, the alternative laid down, and the second target filled in. -/
theorem fillChoice
    {origin : Assembled} {made more : List Edit}
    {instrs leading chosen : List Instr} {before : Compilation}
    (alternativeKeeps : KeepsHistory StartsArm alternative AddsValue)
    (leads :
      origin.Leads (made ++ more)
        (instrs ++ leading ++ ⟨.jumpNotTruthy, [pendingTarget]⟩ ::
          (chosen ++ [⟨.jump, [pendingTarget]⟩]))
        before)
    (inArm : InArm (made ++ more)) :
    let toAlternative := codeSize (instrs ++ leading)
    let toEnd := toAlternative + jumpSize + codeSize chosen
    openJumps (made ++ more) = toEnd :: toAlternative :: openJumps made →
    origin.Leaves made instrs AddsValue
      ((do
        patch toAlternative (← here)
        alternative
        patch toEnd (← here) : CompileM PUnit) before) := by
  intro toAlternative toEnd waiting
  rw [leads.bind_here]
  generalize codeSize
    (instrs ++ leading ++ ⟨.jumpNotTruthy, [pendingTarget]⟩ ::
      (chosen ++ [⟨.jump, [pendingTarget]⟩])) = start
  rcases leads.patch start with
    ⟨beforeAlternative, patched, filled⟩ | ⟨error, after, failed, left⟩
  case inr =>
    rw [bind_of_error failed]
    exact ⟨_, _, left⟩
  rw [bind_of_ok patched]
  have distinct : toEnd ≠ toAlternative := by
    simp only [toEnd, jumpSize]
    omega
  have stillWaiting :
      openJumps (made ++ more ++ [.patch toAlternative start]) =
        toEnd :: openJumps made :=
    openJumps_patch_enclosing waiting distinct start
  have stillInArm :
      InArm (made ++ more ++ [.patch toAlternative start]) :=
    inArm.append (by rw [stillWaiting, waiting]; rfl)
  refine filled.bind alternativeKeeps ⟨stillInArm, by simp⟩ ?_
  intro later behind middle laid closed value
  rw [laid.bind_here]
  generalize codeSize _ = finish
  have shape :
      instrs ++ leading ++ ⟨.jumpNotTruthy, [start]⟩ ::
            (chosen ++ [⟨.jump, [pendingTarget]⟩]) ++ behind =
        (instrs ++ leading ++ ⟨.jumpNotTruthy, [start]⟩ :: chosen) ++
          ⟨.jump, [pendingTarget]⟩ :: behind := by
    simp
  have jumpIsAtEnd :
      codeSize (instrs ++ leading ++ ⟨.jumpNotTruthy, [start]⟩ :: chosen) =
        toEnd := by
    simp [toEnd, toAlternative]
    omega
  rw [shape] at laid
  have finished := laid.patch finish
  rw [jumpIsAtEnd] at finished
  rcases finished with ⟨after, patched, filled⟩ | ⟨error, after, failed, left⟩
  case inr =>
    rw [failed]
    exact ⟨_, _, left⟩
  rw [patched]
  simp only [List.append_assoc] at filled
  refine ⟨_, _, filled, ?_, ?_⟩
  · simp only [← List.append_assoc]
    exact openJumps_patch (closed.trans stillWaiting) finish
  · have arms :
        YieldsValue
          (⟨.jumpNotTruthy, [start]⟩ :: chosen ++
            ⟨.jump, [finish]⟩ :: behind) :=
      .append (.append value [_]) _
    exact arms.append leading

/-- A choice is laid out, and its jumps get their targets. -/
theorem choice
    (conditionKeeps : KeepsHistory StartsAnywhere condition AddsValue)
    (consequenceKeeps : KeepsHistory StartsArm consequence AddsValue)
    (alternativeKeeps : KeepsHistory StartsArm alternative AddsValue) :
    KeepsHistory StartsAnywhere (emitChoice condition consequence alternative)
      AddsValue := by
  intro origin made instrs before leads _
  refine leads.bind conditionKeeps trivial ?_
  intro conditionEdits leading afterCondition conditionLaid conditionClosed _
  rw [conditionLaid.bind_here]
  obtain ⟨beforeConsequence, emitted, jumpNotTruthyLaid⟩ :=
    conditionLaid.emitPending (rfl : Opcode.jumpNotTruthy.isJump = true)
  rw [bind_of_ok emitted]
  refine jumpNotTruthyLaid.bind consequenceKeeps
    ⟨.of_jump rfl _, by simp⟩ ?_
  intro chosenEdits chosen afterConsequence chosenLaid chosenClosed _
  let toAlternative := codeSize (instrs ++ leading)
  let toEnd := toAlternative + jumpSize + codeSize chosen
  have jumpIsHere :
      codeSize
          (instrs ++ leading ++ [⟨.jumpNotTruthy, [pendingTarget]⟩] ++
            chosen) =
        toEnd := by
    simp [toEnd, toAlternative, Nat.add_assoc]
  rw [chosenLaid.bind_here]
  obtain ⟨beforePatch, emitted, jumpLaid⟩ :=
    chosenLaid.emitPending (rfl : Opcode.jump.isJump = true)
  rw [bind_of_ok emitted]
  rw [jumpIsHere] at jumpLaid ⊢
  let more : List Edit :=
    conditionEdits ++
      .emit toAlternative ⟨.jumpNotTruthy, [pendingTarget]⟩ ::
        (chosenEdits ++ [.emit toEnd ⟨.jump, [pendingTarget]⟩])
  have sameEdits :
      made ++ conditionEdits ++
            [.emit toAlternative ⟨.jumpNotTruthy, [pendingTarget]⟩] ++
          chosenEdits ++ [.emit toEnd ⟨.jump, [pendingTarget]⟩] =
        made ++ more := by
    simp [more]
  have inArm : InArm (made ++ more) := sameEdits ▸ .of_jump rfl _
  have waiting :
      openJumps (made ++ more) =
        toEnd :: toAlternative :: openJumps made := by
    rw [← sameEdits, openJumps_jump rfl, chosenClosed, openJumps_jump rfl,
      conditionClosed]
  rw [sameEdits, List.append_assoc (instrs ++ leading),
    List.append_assoc (instrs ++ leading)] at jumpLaid
  exact fillChoice alternativeKeeps jumpLaid inArm waiting

end Choice

end KeepsHistory

mutual

/-- Generating the code of an expression keeps the history. -/
theorem Expr.generate_keepsHistory :
    (expression : Expr) →
      KeepsHistory StartsAnywhere expression.generate AddsValue
  | .ident name => by
      exact .name name
  | .int number => by
      exact .literal number
  | .bool true | .bool false => by
      exact .bare nofun rfl
  | .str _ | .function _ _ | .call _ _ => by
      exact .unsupported _
  | .unary operator operand => by
      exact operand.generate_keepsHistory.seqValue
        (.operator operandWidths_of_unary (unaryOpcode?_ne_pop operator))
  | .binary left operator right => by
      rw [Expr.generate]
      split
      case isTrue =>
        exact right.generate_keepsHistory.seqValue
          (left.generate_keepsHistory.seqValue (.bare nofun rfl))
      case isFalse =>
        exact left.generate_keepsHistory.seqValue
          (right.generate_keepsHistory.seqValue
            (.operator operandWidths_of_binary
              (binaryOpcode?_ne_pop operator)))
  | .ifThen condition consequence => by
      exact .choice condition.generate_keepsHistory
        (.block (generateStatements_keepsHistory consequence))
        (.bare nofun rfl)
  | .ifElse condition consequence alternative => by
      exact .choice condition.generate_keepsHistory
        (.block (generateStatements_keepsHistory consequence))
        (.block (generateStatements_keepsHistory alternative))
termination_by structural expression => expression

/-- Generating the code of a statement keeps the history. -/
theorem Stmt.generate_keepsHistory :
    (statement : Stmt) →
      KeepsHistory StartsAnywhere statement.generate AddsStatements
  | .define name value => by
      exact value.generate_keepsHistory.seq (.definition name)
        fun _ written => .value (YieldsValue.append written _)
  | .ret _ => by
      exact .unsupported "return statement"
  | .expr value => by
      exact value.generate_keepsHistory.discard
  | .block statements => by
      exact generateStatements_keepsHistory statements
termination_by structural statement => statement

/-- Generating the code of statements keeps the history. -/
theorem generateStatements_keepsHistory :
    (statements : List Stmt) →
      KeepsHistory StartsAnywhere (generateStatements statements)
        AddsStatements
  | [] => by
      exact .empty
  | statement :: rest => by
      exact statement.generate_keepsHistory.seq
        (generateStatements_keepsHistory rest) fun first second =>
          first.append second
termination_by structural statements => statements

end

namespace Compilation

/-- Adding a program leaves a history of edits, whether it is compiled or
rejected. -/
theorem exists_leads_add
    (origin : Assembled) {before : Compilation}
    (isOrigin : before.assembler = origin.assembler) (program : Program) :
    ∃ edits instrs, origin.Leads edits instrs (before.add program) := by
  have left :=
    generateStatements_keepsHistory program origin [] origin.instrs before
      ⟨.nil, isOrigin⟩ trivial
  change origin.Leaves [] origin.instrs AddsStatements
    (program.generate before) at left
  rw [add]
  cases shape : program.generate before with
  | ok _ after =>
      rw [shape] at left
      obtain ⟨more, added, leads, _⟩ := left
      exact ⟨_, _, leads⟩
  | error error after =>
      rw [shape] at left
      exact left

/-- The edits since the origin of a history are those of the history. -/
theorem toList_editsSince
    {origin : Assembled} {before after : Compilation} {edits : List Edit}
    {instrs : List Instr} (isOrigin : before.assembler = origin.assembler)
    (leads : origin.Leads edits instrs after) :
    (after.editsSince before).toList = edits := by
  have journal := (origin.tracks.replay leads.history).2
  rw [← leads.assembler, ← isOrigin] at journal
  have sizes :
      after.assembler.journal.size =
        before.assembler.journal.size + edits.length := by
    simp only [← Array.length_toList, journal, List.length_append]
  rw [editsSince, Array.toList_extract, List.extract_eq_take_drop, journal,
    List.drop_left' Array.length_toList, sizes, Nat.add_sub_cancel_left,
    List.take_length]

end Compilation

/--
The records of the last two instructions are right whenever they are used.

Whatever was compiled or rejected before, adding a program makes its edits one
after the other. Before each of them, and behind the last one, the code consists
of whole instructions, and the last one is known. What is taken back is always
the pop that was emitted just before in an arm, and the instruction before it is
then known to be the last.
-/
theorem undo_records_are_right
    (scope : Scope) (constants : Array Value) (programs : List Program)
    (program : Program) :
    let before := (Compilation.resume scope constants).addAll programs
    let after := before.add program
    let edits := (after.editsSince before).toList
    after.assembler = before.assembler.replay edits ∧
      ∀ made unmade, edits = made ++ unmade →
        let assembler := before.assembler.replay made
        (∃ instrs, assembler.KnowsEnd instrs) ∧
          ∀ removed rest, unmade = .retract removed :: rest →
            EndsArm made removed ∧
              ∃ leading kept, assembler.TakesBackPop leading kept removed := by
  intro before after edits
  obtain ⟨_, _, represents⟩ :=
    (Compilation.resume_represents scope constants).addAll programs
  let origin : Assembled := ⟨before.assembler, _, represents.tracks⟩
  obtain ⟨ownEdits, instrs, leads⟩ :=
    Compilation.exists_leads_add origin rfl program
  have sameEdits : edits = ownEdits :=
    Compilation.toList_editsSince rfl leads
  rw [sameEdits]
  refine ⟨leads.assembler, ?_⟩
  rintro made unmade rfl assembler
  constructor
  · obtain ⟨_, history⟩ := leads.history.of_append
    exact ⟨_, (origin.tracks.replay history).1.knowsEnd⟩
  · rintro removed rest rfl
    obtain ⟨_, _, history, takes⟩ := leads.history.split
    exact ⟨takes.endsArm, (origin.tracks.replay history).1.takesBackPop takes⟩

/-- A program was rejected within an arm. The arm of the next one ends in a pop,
which is taken back. -/
theorem taken_back_after_rejection :
    let rejected : Program :=
      [.expr (.ifThen (.bool true) [.expr (.str "a")])]
    let before := (Compilation.resume .empty #[]).addAll [rejected]
    let made : List Edit :=
      [.emit 4 ⟨.pushTrue, []⟩, .emit 5 ⟨.jumpNotTruthy, [pendingTarget]⟩,
        .emit 8 ⟨.pushFalse, []⟩, .emit 9 ⟨.pop, []⟩]
    EndsArm made ⟨.pop, 9⟩ ∧
      ∃ leading kept,
        (before.assembler.replay made).TakesBackPop leading kept
          ⟨.pop, 9⟩ := by
  intro rejected before made
  let next : Program := [.expr (.ifThen (.bool true) [.expr (.bool false)])]
  let behind : List Edit :=
    [.emit 9 ⟨.jump, [pendingTarget]⟩, .patch 5 12, .emit 12 ⟨.pushNull, []⟩,
      .patch 9 13, .emit 13 ⟨.pop, []⟩]
  have edits :
      ((before.add next).editsSince before).toList =
        made ++ .retract ⟨.pop, 9⟩ :: behind := by
    decide +kernel
  obtain ⟨_, right⟩ := undo_records_are_right .empty #[] [rejected] next
  exact (right made _ edits).2 _ _ rfl

end StackLang
