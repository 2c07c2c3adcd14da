import StackLang.Proofs.Compilation.Additions
import StackLang.Proofs.Compilation.Edits

namespace StackLang

open CompileM

/-!
# Steps that keep a history

Each step of a compilation that changes its code is one edit. `KeepsHistory`
says that an action goes on with whatever history of edits there is, whether it
succeeds or fails, and what it adds. The code of an expression never ends in a
pop; that of statements ends in one at most, which was emitted just before.
-/

namespace CompileM

/-- To lay down an instruction is one edit, made at the end of the code. -/
theorem emit_apply
    (opcode : Opcode) (operands : List Nat) (before : Compilation) :
    emit opcode operands before =
      match (Instr.mk opcode operands).encode with
      | .error error =>
          .error (.encode error) before
      | .ok _ =>
          .ok ⟨⟩
            { before with
              assembler :=
                before.assembler.edit
                  (.emit before.assembler.offset ⟨opcode, operands⟩) } := by
  rw [emit]
  cases encoded : (Instr.mk opcode operands).encode with
  | error error =>
      rfl
  | ok bytes =>
      simp only [Assembler.edit, Instr.bytes_of_encode encoded]
      rfl

/-- To give an instruction another operand is one edit, also if it fails. -/
theorem patch_apply (offset operand : Nat) (before : Compilation) :
    patch offset operand before =
      let after :=
        { before with
          assembler := before.assembler.edit (.patch offset operand) }
      match before.assembler.code.patchedBytes offset operand with
      | .error error =>
          .error (.encode error) after
      | .ok _ =>
          .ok ⟨⟩ after := by
  simp only [patch, modifyAssembler, bind_modify, bind_get, Assembler.edit,
    Assembler.notePatch]
  cases before.assembler.code.patchedBytes offset operand <;> rfl

end CompileM

/-- An assembler, and the instructions that it has laid down. -/
structure Assembled where
  assembler : Assembler
  instrs : List Instr
  tracks : assembler.Tracks instrs

namespace Assembled

/-- A history of edits leads from an assembler to that of a compilation. -/
structure Leads
    (origin : Assembled) (edits : List Edit) (instrs : List Instr)
    (compilation : Compilation) : Prop where
  history : History origin.instrs edits instrs
  assembler : compilation.assembler = origin.assembler.replay edits

/-- What a result leaves behind edits: a history of more edits. A success has
added instructions and given every jump among them its target. -/
def Leaves
    (origin : Assembled) (made : List Edit) (instrs : List Instr)
    (adds : List Edit → List Instr → Prop) :
    EStateM.Result CompileError Compilation PUnit → Prop
  | .ok _ after =>
      ∃ more added,
        origin.Leads (made ++ more) (instrs ++ added) after ∧
          openJumps (made ++ more) = openJumps made ∧ adds more added
  | .error _ after =>
      ∃ edits others, origin.Leads edits others after

namespace Leaves

variable {origin : Assembled} {made more : List Edit}
variable {instrs added : List Instr}
variable {adds second : List Edit → List Instr → Prop}
variable {result : EStateM.Result CompileError Compilation PUnit}

/-- What is left behind more edits is left behind those before them. -/
theorem behind
    (left : origin.Leaves (made ++ more) (instrs ++ added) second result)
    (closed : openJumps (made ++ more) = openJumps made)
    (combine :
      ∀ later behind, second later behind →
        adds (more ++ later) (added ++ behind)) :
    origin.Leaves made instrs adds result := by
  cases result with
  | error error after =>
      exact left
  | ok _ after =>
      obtain ⟨later, behind, leads, closedAgain, isBehind⟩ := left
      rw [List.append_assoc, List.append_assoc] at leads
      rw [List.append_assoc] at closedAgain
      exact ⟨_, _, leads, closedAgain.trans closed, combine _ _ isBehind⟩

end Leaves

end Assembled

/-- An action that begins as required goes on with any history. -/
def KeepsHistory
    (begins : List Edit → List Instr → Prop) (action : CompileM PUnit)
    (adds : List Edit → List Instr → Prop) : Prop :=
  ∀ (origin : Assembled) (made : List Edit) (instrs : List Instr)
    (before : Compilation),
    origin.Leads made instrs before → begins made instrs →
    origin.Leaves made instrs adds (action before)

/-- Edits may be made at any time. -/
def StartsAnywhere (_ : List Edit) (_ : List Instr) : Prop :=
  True

/-- The edits of an arm start behind a jump that waits for its target. -/
def StartsArm (made : List Edit) (instrs : List Instr) : Prop :=
  InArm made ∧ lastOpcode? instrs ≠ some .pop

/-- The instructions end in one that is no pop. -/
def YieldsValue (instrs : List Instr) : Prop :=
  ∃ leading kept, instrs = leading ++ [kept] ∧ kept.opcode ≠ .pop

theorem YieldsValue.append
    {behind : List Instr} (value : YieldsValue behind) (added : List Instr) :
    YieldsValue (added ++ behind) := by
  obtain ⟨leading, kept, rfl, notPop⟩ := value
  exact ⟨added ++ leading, kept, (List.append_assoc _ _ _).symm, notPop⟩

/-- The instructions of an expression yield a value. -/
def AddsValue (_ : List Edit) (added : List Instr) : Prop :=
  YieldsValue added

/-- The instructions of statements end in a single pop at most, which is emitted
by the last edit. -/
inductive AddsStatements : List Edit → List Instr → Prop
  | nothing : AddsStatements [] []
  | value {more : List Edit} {added : List Instr}
      (value : YieldsValue added) : AddsStatements more added
  | discarded {more : List Edit} {added : List Instr} (offset : Nat)
      (value : YieldsValue added) :
      AddsStatements (more ++ [.emit offset ⟨.pop, []⟩])
        (added ++ [⟨.pop, []⟩])

/-- What statements add ends as what the last of them adds. -/
theorem AddsStatements.append
    {more later : List Edit} {added behind : List Instr}
    (first : AddsStatements more added)
    (second : AddsStatements later behind) :
    AddsStatements (more ++ later) (added ++ behind) := by
  cases second with
  | nothing =>
      simpa using first
  | value value =>
      exact .value (value.append added)
  | discarded offset value =>
      rw [← List.append_assoc, ← List.append_assoc]
      exact .discarded offset (value.append added)

namespace Assembled.Leads

variable {origin : Assembled} {made earlier : List Edit}
variable {instrs initial others leading trailing : List Instr}
variable {before after : Compilation} {adds : List Edit → List Instr → Prop}
variable {opcode : Opcode} {operands : List Nat} {old new : Nat}

/-- A compilation knows the instructions that its history leads to. -/
theorem tracks (leads : origin.Leads made instrs before) :
    before.assembler.Tracks instrs :=
  leads.assembler ▸ (origin.tracks.replay leads.history).1

/-- The rest of a compilation does not matter. -/
theorem congr
    (leads : origin.Leads made instrs before)
    (same : after.assembler = before.assembler) :
    origin.Leads made instrs after :=
  ⟨leads.history, same.trans leads.assembler⟩

/-- One more edit is made. -/
theorem edit
    {edit : Edit} (leads : origin.Leads made instrs before)
    (takes : edit.Takes made instrs others)
    (edited : after.assembler = before.assembler.edit edit) :
    origin.Leads (made ++ [edit]) others after where
  history := leads.history.concat takes
  assembler := by
    rw [edited, leads.assembler, Assembler.replay_concat]

/-- The offset at which code goes on is behind the instructions. -/
theorem bind_here
    {α : Type} (leads : origin.Leads made instrs before)
    (next : Nat → CompileM α) :
    (here >>= next) before = next (codeSize instrs) before :=
  congrArg (next · before) leads.tracks.offset_eq

/-- An instruction was laid down. -/
theorem of_emit
    (leads : origin.Leads made instrs before)
    (emitted : CompileM.emit opcode operands before = .ok ⟨⟩ after) :
    origin.Leads (made ++ [.emit (codeSize instrs) ⟨opcode, operands⟩])
      (instrs ++ [⟨opcode, operands⟩]) after := by
  rw [emit_apply, leads.tracks.offset_eq] at emitted
  cases encoded : (Instr.mk opcode operands).encode with
  | error error =>
      rw [encoded] at emitted
      cases emitted
  | ok bytes =>
      rw [encoded] at emitted
      cases emitted
      exact leads.edit (.emit ⟨bytes, encoded⟩) rfl

/-- An instruction that can be encoded is laid down. -/
theorem emit
    (leads : origin.Leads made instrs before)
    (encodable : (Instr.mk opcode operands).Encodable) :
    ∃ after,
      CompileM.emit opcode operands before = .ok ⟨⟩ after ∧
        origin.Leads (made ++ [.emit (codeSize instrs) ⟨opcode, operands⟩])
          (instrs ++ [⟨opcode, operands⟩]) after := by
  obtain ⟨encoded, accepted⟩ := encodable
  have succeeded := emit_apply opcode operands before
  rw [accepted] at succeeded
  exact ⟨_, succeeded, leads.of_emit succeeded⟩

/-- A jump whose target is not known yet is laid down. -/
theorem emitPending
    (leads : origin.Leads made instrs before)
    (jumps : opcode.isJump = true) :
    ∃ after,
      CompileM.emit opcode [pendingTarget] before = .ok ⟨⟩ after ∧
        origin.Leads
          (made ++ [.emit (codeSize instrs) ⟨opcode, [pendingTarget]⟩])
          (instrs ++ [⟨opcode, [pendingTarget]⟩]) after := by
  rcases Opcode.eq_of_isJump jumps with rfl | rfl <;>
    exact leads.emit ⟨_, Instr.encode_wide rfl pendingTarget⟩

/-- The operand of an instruction is filled in, or refused. -/
theorem patch
    (leads :
      origin.Leads made (leading ++ ⟨opcode, [old]⟩ :: trailing) before)
    (new : Nat) :
    (∃ after,
      CompileM.patch (codeSize leading) new before = .ok ⟨⟩ after ∧
        origin.Leads (made ++ [.patch (codeSize leading) new])
          (leading ++ ⟨opcode, [new]⟩ :: trailing) after) ∨
      ∃ error after,
        CompileM.patch (codeSize leading) new before = .error error after ∧
          origin.Leads (made ++ [.patch (codeSize leading) new])
            (leading ++ ⟨opcode, [old]⟩ :: trailing) after := by
  rw [patch_apply, leads.tracks.consists.patchedBytes_eq]
  cases encoded : (Instr.mk opcode [new]).encode with
  | ok bytes =>
      exact .inl ⟨_, rfl, leads.edit (.patch ⟨bytes, encoded⟩) rfl⟩
  | error error =>
      have refused : ¬ (Instr.mk opcode [new]).Encodable := by
        rintro ⟨bytes, accepted⟩
        rw [accepted] at encoded
        cases encoded
      exact .inr ⟨_, _, rfl, leads.edit (.refuse refused) rfl⟩

/-- Code that does not end in a pop is ended with null. -/
theorem keepValue_eq_emit
    (leads : origin.Leads made instrs before)
    (notPop : lastOpcode? instrs ≠ some .pop) :
    keepValue before = CompileM.emit .pushNull [] before := by
  have noPop : ¬ before.assembler.endsWith .pop = true := by
    rwa [leads.tracks.endsWith_iff]
  simp only [keepValue, bind_get, if_neg noPop]

/-- A pop that ends an arm is taken back. -/
theorem keepValue_retracts
    {kept : Instr}
    (leads : origin.Leads made (leading ++ [kept] ++ [⟨.pop, []⟩]) before)
    (notPop : kept.opcode ≠ .pop)
    (endsArm : EndsArm made ⟨.pop, codeSize (leading ++ [kept])⟩) :
    ∃ after,
      keepValue before = .ok ⟨⟩ after ∧
        origin.Leads
          (made ++ [.retract ⟨.pop, codeSize (leading ++ [kept])⟩])
          (leading ++ [kept]) after := by
  have popped : before.assembler.endsWith .pop = true := by
    rw [leads.tracks.endsWith_iff]
    simp
  simp only [keepValue, bind_get, popped, if_true]
  exact ⟨_, rfl, leads.edit (.retract notPop endsArm) rfl⟩

/-- An action is followed by another one. -/
theorem bind
    {begins whole : List Edit → List Instr → Prop}
    {step next : CompileM PUnit}
    (leads : origin.Leads made instrs before)
    (keeps : KeepsHistory begins step adds) (begun : begins made instrs)
    (goesOn :
      ∀ more added after,
        origin.Leads (made ++ more) (instrs ++ added) after →
        openJumps (made ++ more) = openJumps made → adds more added →
        origin.Leaves earlier initial whole (next after)) :
    origin.Leaves earlier initial whole ((step >>= fun _ => next) before) := by
  have left := keeps origin made instrs before leads begun
  cases shape : step before with
  | ok _ after =>
      rw [shape] at left
      obtain ⟨more, added, leadsOn, closed, isAdded⟩ := left
      rw [bind_of_ok shape]
      exact goesOn more added after leadsOn closed isAdded
  | error error after =>
      rw [shape] at left
      rw [bind_of_error shape]
      exact left

end Assembled.Leads

namespace KeepsHistory

variable {begins adds : List Edit → List Instr → Prop}

/-- Doing nothing adds nothing. -/
theorem empty : KeepsHistory StartsAnywhere (pure ⟨⟩) AddsStatements := by
  intro origin made instrs before leads _
  refine ⟨[], [], ?_, ?_, .nothing⟩
  · rwa [List.append_nil, List.append_nil]
  · rw [List.append_nil]

/-- What is not supported fails. -/
theorem unsupported (kind : String) :
    KeepsHistory begins (throw (.unsupportedNode kind)) adds := by
  intro origin made instrs before leads _
  exact ⟨made, instrs, leads⟩

/-- An action that lays down one instruction, or else changes nothing. The
instruction is neither a pop nor a jump. -/
theorem single
    {action : CompileM PUnit} {opcode : Opcode}
    (refuses : Refuses action)
    (lays :
      ∀ before after, action before = .ok ⟨⟩ after →
        ∃ operands middle,
          emit opcode operands middle = .ok ⟨⟩ after ∧
            middle.assembler = before.assembler)
    (notPop : opcode ≠ .pop) (notJump : opcode.isJump = false) :
    KeepsHistory begins action AddsValue := by
  intro origin made instrs before leads _
  cases shape : action before with
  | error error after =>
      obtain rfl := refuses before error after shape
      exact ⟨made, instrs, leads⟩
  | ok _ after =>
      obtain ⟨operands, middle, emitted, same⟩ := lays before after shape
      refine ⟨_, _, (leads.congr same).of_emit emitted, ?_, [], _, rfl, notPop⟩
      simp [Edit.openJumps, notJump]

/-- An instruction without operands is laid down. -/
theorem bare
    {opcode : Opcode} (notPop : opcode ≠ .pop)
    (notJump : opcode.isJump = false) :
    KeepsHistory begins (emit opcode []) AddsValue :=
  single (.emit opcode [])
    (fun before _ emitted => ⟨[], before, emitted, rfl⟩) notPop notJump

/-- A step that gives an operand is followed by the instruction for it. -/
theorem wide
    {step : CompileM Nat} {opcode : Opcode}
    (refuses : Refuses (step >>= fun operand => emit opcode [operand]))
    (keeps :
      ∀ before operand after, step before = .ok operand after →
        after.assembler = before.assembler)
    (notPop : opcode ≠ .pop) (notJump : opcode.isJump = false) :
    KeepsHistory begins (step >>= fun operand => emit opcode [operand])
      AddsValue := by
  refine single refuses (fun before after succeeded => ?_) notPop notJump
  obtain ⟨operand, middle, stepped, emitted⟩ := bind_eq_ok_iff.mp succeeded
  exact ⟨[operand], middle, emitted, keeps before operand middle stepped⟩

theorem literal (number : Int64) :
    KeepsHistory begins (Expr.int number).generate AddsValue := by
  refine wide (.literal number) (fun before index after pooled => ?_) nofun rfl
  simp only [addConstant, bind_get] at pooled
  split at pooled <;> cases pooled
  rfl

theorem name (name : String) :
    KeepsHistory begins (Expr.ident name).generate AddsValue := by
  refine wide (.name name) (fun before slot after found => ?_) nofun rfl
  simp only [resolve, bind_get] at found
  cases resolved : before.scope.resolve? name <;> rw [resolved] at found <;>
    cases found
  rfl

theorem definition (name : String) :
    KeepsHistory begins (define name >>= fun slot => emit .setGlobal [slot])
      AddsValue := by
  refine wide (.definition name) (fun before slot after defined => ?_) nofun rfl
  simp only [define, bind_get] at defined
  split at defined <;> cases defined
  rfl

/-- The instruction of an operator is laid down, if there is one. -/
theorem operator
    {operator : String} {opcode? : Option Opcode}
    (bare : ∀ opcode, opcode? = some opcode → opcode.operandWidths = [])
    (notPop : opcode? ≠ some .pop) :
    KeepsHistory begins (emitOperator operator opcode?) AddsValue := by
  cases opcode? with
  | none =>
      intro origin made instrs before leads _
      exact ⟨made, instrs, leads⟩
  | some opcode =>
      have isBare := bare opcode rfl
      refine .bare (fun isPop => notPop (congrArg some isPop)) ?_
      cases opcode <;> first | rfl | cases isBare

/-- One action after another keeps the history if each of them does. -/
theorem seq
    {step next : CompileM PUnit}
    {first second adds : List Edit → List Instr → Prop}
    (stepKeeps : KeepsHistory StartsAnywhere step first)
    (nextKeeps : KeepsHistory StartsAnywhere next second)
    (combine :
      ∀ {more later added behind}, first more added → second later behind →
        adds (more ++ later) (added ++ behind)) :
    KeepsHistory StartsAnywhere (step >>= fun _ => next) adds := by
  intro origin made instrs before leads _
  refine leads.bind stepKeeps trivial ?_
  intro more added middle leadsOn closed isAdded
  have left := nextKeeps origin _ _ middle leadsOn trivial
  exact left.behind closed fun _ _ isBehind => combine isAdded isBehind

/-- An expression ends as its last part does. -/
theorem seqValue
    {step next : CompileM PUnit} {first : List Edit → List Instr → Prop}
    (stepKeeps : KeepsHistory StartsAnywhere step first)
    (nextKeeps : KeepsHistory StartsAnywhere next AddsValue) :
    KeepsHistory StartsAnywhere (step >>= fun _ => next) AddsValue :=
  stepKeeps.seq nextKeeps fun _ value => YieldsValue.append value _

/-- A value that is discarded ends a statement. -/
theorem discard
    {step : CompileM PUnit}
    (keeps : KeepsHistory StartsAnywhere step AddsValue) :
    KeepsHistory StartsAnywhere (step >>= fun _ => emit .pop [])
      AddsStatements := by
  intro origin made instrs before leads _
  refine leads.bind keeps trivial ?_
  intro more added middle leadsOn closed value
  obtain ⟨after, emitted, leadsFurther⟩ :=
    leadsOn.emit ⟨_, Instr.encode_bare (rfl : Opcode.pop.operandWidths = [])⟩
  rw [emitted]
  rw [List.append_assoc, List.append_assoc] at leadsFurther
  refine ⟨_, _, leadsFurther, ?_, .discarded _ value⟩
  rw [← List.append_assoc, openJumps_concat, closed]
  rfl

end KeepsHistory

end StackLang
