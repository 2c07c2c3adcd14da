import Mathlib.Data.List.Induction
import StackLang.Proofs.Compilation.Assembly
import StackLang.Proofs.Machine.Execution

namespace StackLang

/-!
# Histories of edits

The journal of an assembler tells each of its edits, so that the states in
between can be found again: they are what is left of making the edits up to
there once more.

`Edit.Takes` says which edits may follow others. The one that matters takes an
instruction back: it has to be a pop that was emitted just before, in an arm of
a choice, behind an instruction that is no pop. Only one record is left then,
and it is right. Any instruction that is taken back later was emitted later, so
that there are two records again.
-/

namespace Assembler

/-- Make an edit. -/
def edit (assembler : Assembler) : Edit → Assembler
  | .emit _ instr =>
      assembler.emit instr instr.bytes
  | .retract _ =>
      assembler.retract
  | .patch offset operand =>
      let noted := assembler.notePatch offset operand
      match noted.code.patchedBytes offset operand with
      | .ok encoded =>
          noted.overwrite offset encoded
      | .error _ =>
          noted

/-- Make edits one after the other. -/
def replay (assembler : Assembler) (edits : List Edit) : Assembler :=
  edits.foldl edit assembler

@[simp] theorem replay_concat
    (assembler : Assembler) (edits : List Edit) (edit : Edit) :
    assembler.replay (edits ++ [edit]) =
      (assembler.replay edits).edit edit := by
  simp [replay]

end Assembler

/-- The jumps without a target behind an edit, innermost first. -/
def Edit.openJumps (before : List Nat) : Edit → List Nat
  | .emit offset instr =>
      if instr.opcode.isJump then
        offset :: before
      else
        before
  | .retract _ =>
      before
  | .patch offset _ =>
      before.erase offset

/-- The jumps without a target behind edits, innermost first. -/
def openJumps (edits : List Edit) : List Nat :=
  edits.foldl Edit.openJumps []

@[simp] theorem openJumps_concat (edits : List Edit) (edit : Edit) :
    openJumps (edits ++ [edit]) = edit.openJumps (openJumps edits) := by
  simp [openJumps]

/-- A jump waits for its target behind its emission. -/
theorem openJumps_jump
    {instr : Instr} (jumps : instr.opcode.isJump = true)
    (edits : List Edit) (offset : Nat) :
    openJumps (edits ++ [.emit offset instr]) = offset :: openJumps edits := by
  rw [openJumps_concat, Edit.openJumps, if_pos jumps]

/-- The innermost jump gets its target. -/
theorem openJumps_patch
    {edits : List Edit} {jump : Nat} {enclosing : List Nat}
    (waiting : openJumps edits = jump :: enclosing) (target : Nat) :
    openJumps (edits ++ [.patch jump target]) = enclosing := by
  rw [openJumps_concat, waiting, Edit.openJumps, List.erase_cons_head]

/-- The jump around the innermost one gets its target. -/
theorem openJumps_patch_enclosing
    {edits : List Edit} {jump outer : Nat} {enclosing : List Nat}
    (waiting : openJumps edits = jump :: outer :: enclosing)
    (distinct : jump ≠ outer) (target : Nat) :
    openJumps (edits ++ [.patch outer target]) = jump :: enclosing := by
  rw [openJumps_concat, waiting, Edit.openJumps,
    List.erase_cons_tail (by simpa using distinct), List.erase_cons_head]

/-- The edits lead into an arm of a choice. An arm begins with a jump that is
emitted without its target; arms are nested, so that the innermost jump that
still waits for its target tells which arm is to be closed first. -/
def InArm (edits : List Edit) : Prop :=
  ∃ outer inner jump opcode,
    opcode.isJump = true ∧
      edits = outer ++ .emit jump ⟨opcode, [pendingTarget]⟩ :: inner ∧
        (openJumps edits).head? = some jump

namespace InArm

variable {edits : List Edit} {opcode : Opcode}

/-- A jump that waits for its target leads into an arm. -/
theorem of_jump (jumps : opcode.isJump = true) (offset : Nat) :
    InArm (edits ++ [.emit offset ⟨opcode, [pendingTarget]⟩]) :=
  ⟨edits, [], offset, opcode, jumps, rfl, by rw [openJumps_jump jumps]; rfl⟩

/-- Edits behind which the same jump waits stay in the arm. -/
theorem append
    {more : List Edit} (inArm : InArm edits)
    (sameJump : (openJumps (edits ++ more)).head? = (openJumps edits).head?) :
    InArm (edits ++ more) := by
  obtain ⟨outer, inner, jump, opcode, jumps, rfl, isOpen⟩ := inArm
  refine ⟨outer, inner ++ more, jump, opcode, jumps, ?_,
    sameJump.trans isOpen⟩
  rw [List.append_assoc, List.cons_append]

end InArm

/-- The last of the edits emitted this instruction, in the arm that is to be
closed first. -/
def EndsArm (edits : List Edit) (emitted : Emitted) : Prop :=
  ∃ earlier,
    InArm earlier ∧
      edits = earlier ++ [.emit emitted.offset ⟨emitted.opcode, []⟩]

/-- After the edits that were made, an edit takes the instructions that are laid
down to others. -/
inductive Edit.Takes (made : List Edit) :
    (instrs : List Instr) → Edit → (others : List Instr) → Prop
  | emit {instrs : List Instr} {instr : Instr}
      (encodable : instr.Encodable) :
      Takes made instrs (.emit (codeSize instrs) instr) (instrs ++ [instr])
  | retract {leading : List Instr} {kept : Instr}
      (notPop : kept.opcode ≠ .pop)
      (endsArm : EndsArm made ⟨.pop, codeSize (leading ++ [kept])⟩) :
      Takes made (leading ++ [kept] ++ [⟨.pop, []⟩])
        (.retract ⟨.pop, codeSize (leading ++ [kept])⟩) (leading ++ [kept])
  | patch {leading trailing : List Instr} {opcode : Opcode} {old new : Nat}
      (encodable : (Instr.mk opcode [new]).Encodable) :
      Takes made (leading ++ ⟨opcode, [old]⟩ :: trailing)
        (.patch (codeSize leading) new)
        (leading ++ ⟨opcode, [new]⟩ :: trailing)
  | refuse {leading trailing : List Instr} {opcode : Opcode} {old new : Nat}
      (refused : ¬ (Instr.mk opcode [new]).Encodable) :
      Takes made (leading ++ ⟨opcode, [old]⟩ :: trailing)
        (.patch (codeSize leading) new)
        (leading ++ ⟨opcode, [old]⟩ :: trailing)

/-- An instruction is taken back only where it ends an arm. -/
theorem Edit.Takes.endsArm
    {made : List Edit} {instrs others : List Instr} {removed : Emitted}
    (takes : (Edit.retract removed).Takes made instrs others) :
    EndsArm made removed := by
  cases takes with
  | retract notPop endsArm =>
      exact endsArm

/-- Edits, each of which may follow those before it, take the instructions at
the start to others. -/
inductive History (start : List Instr) : List Edit → List Instr → Prop
  | nil : History start [] start
  | concat {made : List Edit} {edit : Edit} {instrs others : List Instr}
      (history : History start made instrs)
      (takes : edit.Takes made instrs others) :
      History start (made ++ [edit]) others

namespace History

variable {start instrs others : List Instr}
variable {made rest : List Edit} {edit : Edit}

theorem concat_iff :
    History start (made ++ [edit]) others ↔
      ∃ instrs, History start made instrs ∧ edit.Takes made instrs others := by
  constructor
  · intro history
    generalize shape : made ++ [edit] = edits at history
    cases history with
    | nil =>
        simp at shape
    | concat history takes =>
        obtain ⟨rfl, isEdit⟩ := List.append_inj' shape rfl
        cases isEdit
        exact ⟨_, history, takes⟩
  · rintro ⟨instrs, history, takes⟩
    exact history.concat takes

/-- Every edit of a history may follow those before it, which are a history. -/
theorem split (history : History start (made ++ edit :: rest) others) :
    ∃ instrs middle,
      History start made instrs ∧ edit.Takes made instrs middle := by
  induction rest using List.reverseRecOn generalizing others with
  | nil =>
      obtain ⟨instrs, before, takes⟩ := concat_iff.mp history
      exact ⟨instrs, others, before, takes⟩
  | append_singleton rest last inductionHypothesis =>
      rw [← List.cons_append, ← List.append_assoc, concat_iff] at history
      obtain ⟨instrs, before, _⟩ := history
      exact inductionHypothesis before

/-- The first edits of a history are one. -/
theorem of_append (history : History start (made ++ rest) others) :
    ∃ instrs, History start made instrs := by
  cases rest with
  | nil =>
      exact ⟨others, by rwa [List.append_nil] at history⟩
  | cons edit rest =>
      obtain ⟨instrs, _, before, _⟩ := history.split
      exact ⟨instrs, before⟩

/-- An emission is recorded at the end of the instructions before it. -/
theorem offset_of_emit
    {offset : Nat} {instr : Instr}
    (history : History start (made ++ [.emit offset instr]) others) :
    ∃ instrs, others = instrs ++ [instr] ∧ offset = codeSize instrs := by
  obtain ⟨instrs, _, takes⟩ := concat_iff.mp history
  cases takes with
  | emit encodable =>
      exact ⟨instrs, rfl, rfl⟩

end History

namespace Assembler

/-- The code consists of whole instructions, and the assembler knows which of
them is the last. -/
structure KnowsEnd (assembler : Assembler) (instrs : List Instr) : Prop where
  consists : assembler.code.Consists instrs
  last_eq_none_iff : assembler.last = none ↔ assembler.code.isEmpty = true
  last_eq_some :
    ∀ leading final, instrs = leading ++ [final] →
      assembler.last = some ⟨final.opcode, codeSize leading⟩

/-- Taking back the last instruction, a pop, leaves the others, and a record of
the last of them. -/
structure TakesBackPop
    (assembler : Assembler) (leading : List Instr) (kept : Instr)
    (removed : Emitted) : Prop where
  isEnd : removed = ⟨.pop, codeSize (leading ++ [kept])⟩
  before : assembler.KnowsEnd (leading ++ [kept] ++ [⟨.pop, []⟩])
  previous : assembler.previous = some ⟨kept.opcode, codeSize leading⟩
  after : assembler.retract.KnowsEnd (leading ++ [kept])

namespace Tracks

variable {assembler : Assembler} {start instrs others : List Instr}
variable {made edits : List Edit} {next : Edit}

theorem knowsEnd (tracks : assembler.Tracks instrs) :
    assembler.KnowsEnd instrs where
  consists := tracks.consists
  last_eq_none_iff := by
    have sameSize : assembler.code.bytes.size = codeSize instrs :=
      tracks.consists.size_eq
    rw [tracks.last, Code.isEmpty, Array.isEmpty_iff_size_eq_zero, sameSize]
    cases instrs with
    | nil =>
        simp [lastEmitted]
    | cons instr rest =>
        have positive := instr.size_pos
        exact iff_of_false (by simp [lastEmitted])
          (by rw [codeSize_cons]; omega)
  last_eq_some := by
    rintro leading final rfl
    rw [tracks.last, lastEmitted_concat]

/-- An edit that may follow is made, and written into the journal. -/
theorem edit
    (tracks : assembler.Tracks instrs)
    (takes : next.Takes made instrs others) :
    (assembler.edit next).Tracks others ∧
      (assembler.edit next).journal = assembler.journal.push next := by
  cases takes with
  | emit encodable =>
      obtain ⟨encoded, accepted⟩ := encodable
      rw [Assembler.edit, Instr.bytes_of_encode accepted, ← tracks.offset_eq]
      exact ⟨tracks.emit accepted, rfl⟩
  | @retract leading kept notPop endsArm =>
      have single : lastOpcode? (leading ++ [kept]) ≠ some .pop := by
        simpa using notPop
      have isLast := tracks.last
      rw [lastEmitted_concat] at isLast
      refine ⟨tracks.retract single, ?_⟩
      rw [Assembler.edit, Assembler.retract, isLast]
  | @patch leading trailing opcode old new encodable =>
      obtain ⟨encoded, accepted⟩ := encodable
      have patched := tracks.consists.patchedBytes_eq.trans accepted
      have made :
          assembler.edit (.patch (codeSize leading) new) =
            (assembler.notePatch (codeSize leading) new).overwrite
              (codeSize leading) encoded := by
        simp only [Assembler.edit, Assembler.notePatch, patched]
      rw [made]
      exact ⟨(tracks.notePatch _ _).overwrite accepted, rfl⟩
  | @refuse leading trailing opcode old new refused =>
      have made :
          assembler.edit (.patch (codeSize leading) new) =
            assembler.notePatch (codeSize leading) new := by
        cases encoded : (Instr.mk opcode [new]).encode with
        | error error =>
            have patched := tracks.consists.patchedBytes_eq.trans encoded
            simp only [Assembler.edit, Assembler.notePatch, patched]
        | ok bytes =>
            cases refused ⟨bytes, encoded⟩
      rw [made]
      exact ⟨tracks.notePatch _ _, rfl⟩

/-- A history of edits is replayed, and appended to the journal. -/
theorem replay
    (tracks : assembler.Tracks start) (history : History start edits instrs) :
    (assembler.replay edits).Tracks instrs ∧
      (assembler.replay edits).journal.toList =
        assembler.journal.toList ++ edits := by
  induction history with
  | nil =>
      exact ⟨tracks, (List.append_nil _).symm⟩
  | concat history takes inductionHypothesis =>
      obtain ⟨replayed, journal⟩ := inductionHypothesis
      obtain ⟨edited, noted⟩ := replayed.edit takes
      rw [replay_concat, noted, Array.toList_push, journal, List.append_assoc]
      exact ⟨edited, rfl⟩

/-- What may be taken back is a pop whose predecessor is known. -/
theorem takesBackPop
    {removed : Emitted} (tracks : assembler.Tracks instrs)
    (takes : (Edit.retract removed).Takes made instrs others) :
    ∃ leading kept, assembler.TakesBackPop leading kept removed := by
  have edited := (tracks.edit takes).1
  cases takes with
  | @retract leading kept notPop endsArm =>
      have previous := tracks.previous (by simp)
      rw [List.dropLast_concat, lastEmitted_concat] at previous
      exact ⟨leading, kept, rfl, tracks.knowsEnd, previous, edited.knowsEnd⟩

end Tracks

end Assembler

end StackLang
