import StackLang.Proofs.Compilation.Faults
import StackLang.Proofs.Compilation.Slots

namespace StackLang

open CompileM

/-!
# Additions to a draft

Instructions are added to a draft for the demands that are met. They name the
constants that these demands have pooled, and write the slots that these have
taken, in their order. A step that fails adds nothing, so whatever comes before
the failure is still in step: there is no constant, and no slot, without its
instruction.
-/

/-- The operands of the instructions of one operation, in their order. -/
def operandsOf (opcode : Opcode) (instrs : List Instr) : List Nat :=
  (instrs.filter (·.opcode = opcode)).map Instr.operand

@[simp] theorem operandsOf_nil (opcode : Opcode) : operandsOf opcode [] = [] :=
  rfl

@[simp] theorem operandsOf_append
    (opcode : Opcode) (first second : List Instr) :
    operandsOf opcode (first ++ second) =
      operandsOf opcode first ++ operandsOf opcode second := by
  simp [operandsOf]

@[simp] theorem operandsOf_cons
    (opcode : Opcode) (instr : Instr) (rest : List Instr) :
    operandsOf opcode (instr :: rest) =
      if instr.opcode = opcode then
        instr.operand :: operandsOf opcode rest
      else
        operandsOf opcode rest := by
  by_cases same : instr.opcode = opcode <;> simp [operandsOf, same]

/-- Retaining the value of an arm changes no operand. -/
theorem RetainsValue.operandsOf_eq
    {arm code : List Instr} {opcode : Opcode}
    (retains : RetainsValue arm code)
    (notPop : opcode ≠ .pop) (notNull : opcode ≠ .pushNull) :
    operandsOf opcode arm = operandsOf opcode code := by
  rcases retains with rfl | ⟨rfl, _⟩
  · simp [notPop.symm]
  · simp [notNull.symm]

/-- Demands are met from a numbering on, and instructions name each of their
constants once, and write each of their slots once. -/
structure Serves
    (numbering : Numbering) (met : List Demand) (added : List Instr) :
    Prop where
  accepted : firstFault? numbering met = none
  constants :
    operandsOf .constant added =
      List.range' numbering.pool (literalsOfDemands met).length
  slots :
    operandsOf .setGlobal added =
      List.range' numbering.scope.count (letsOfDemands met).length

namespace Serves

variable {numbering : Numbering} {met : List Demand} {added : List Instr}

theorem nil : Serves numbering [] [] :=
  ⟨rfl, rfl, rfl⟩

/-- Instructions serve the demands of two parts one part after the other. -/
theorem append
    {later : List Demand} {more : List Instr}
    (serves : Serves numbering met added)
    (laterServes : Serves (numbering.after met) later more) :
    Serves numbering (met ++ later) (added ++ more) where
  accepted := by
    rw [firstFault?_append, serves.accepted, laterServes.accepted]
    rfl
  constants := by
    rw [operandsOf_append, serves.constants, laterServes.constants,
      literalsOfDemands_append, List.length_append, ← List.range'_append_1]
    rfl
  slots := by
    rw [operandsOf_append, serves.slots, laterServes.slots,
      letsOfDemands_append, List.length_append, ← List.range'_append_1]
    simp [Numbering.after, Numbering.advance]

/-- Instructions with the same operands serve the same demands. -/
theorem congr
    {others : List Instr} (serves : Serves numbering met added)
    (sameConstants :
      operandsOf .constant others = operandsOf .constant added)
    (sameSlots : operandsOf .setGlobal others = operandsOf .setGlobal added) :
    Serves numbering met others :=
  ⟨serves.accepted, sameConstants.trans serves.constants,
    sameSlots.trans serves.slots⟩

/-- A demand that neither pools nor defines is served by instructions that do
not, if it is met. -/
theorem passing
    {demand : Demand} {instrs : List Instr}
    (accepted : demand.need.fault? numbering = none)
    (pools : demand.literal? = none) (defines : demand.defined? = none)
    (noConstants : operandsOf .constant instrs = [])
    (noSlots : operandsOf .setGlobal instrs = []) :
    Serves numbering [demand] instrs where
  accepted := firstFault?_single.trans accepted
  constants := by
    simp [noConstants, literalsOfDemands, pools]
  slots := by
    simp [noSlots, letsOfDemands, defines]

end Serves

/-- A step that leaves everything as it was when it fails. -/
def Refuses {α : Type} (step : CompileM α) : Prop :=
  ∀ before error after, step before = .error error after → after = before

namespace Refuses

/-- An instruction that cannot be encoded is not laid down. -/
theorem emit (opcode : Opcode) (operands : List Nat) :
    Refuses (CompileM.emit opcode operands) := by
  intro before error after failed
  rw [CompileM.emit] at failed
  cases encoded : (Instr.mk opcode operands).encode with
  | error refusal =>
      rw [encoded] at failed
      cases failed
      rfl
  | ok bytes =>
      rw [encoded] at failed
      cases failed

/-- An operator without an instruction changes nothing. -/
theorem emitOperator (operator : String) (opcode? : Option Opcode) :
    Refuses (StackLang.emitOperator operator opcode?) := by
  intro before error after failed
  cases opcode? with
  | none =>
      cases failed
      rfl
  | some opcode =>
      exact emit opcode [] before error after failed

/-- A value that finds no room is not pooled. -/
theorem addConstant (value : Value) : Refuses (CompileM.addConstant value) := by
  intro before error after failed
  simp only [CompileM.addConstant, bind_get] at failed
  split at failed <;> cases failed
  rfl

/-- A name that finds no slot is not defined. -/
theorem define (name : String) : Refuses (CompileM.define name) := by
  intro before error after failed
  simp only [CompileM.define, bind_get] at failed
  split at failed <;> cases failed
  rfl

/-- A name that has no slot changes nothing. -/
theorem resolve (name : String) : Refuses (CompileM.resolve name) := by
  intro before error after failed
  simp only [CompileM.resolve, bind_get] at failed
  cases resolved : before.scope.resolve? name with
  | none =>
      rw [resolved] at failed
      cases failed
      rfl
  | some slot =>
      rw [resolved] at failed
      cases failed

/-- A step that gives an operand, and the instruction that takes it. Once the step
has changed something, the operand fits. -/
theorem wide
    {step : CompileM Nat} {opcode : Opcode}
    (refuses : Refuses step) (isWide : opcode.operandWidths = [2])
    (goesOn :
      ∀ before operand after, step before = .ok operand after →
        operand ≤ maxOperand ∨ after = before) :
    Refuses (step >>= fun operand => CompileM.emit opcode [operand]) := by
  intro before error after failed
  rcases bind_eq_error_iff.mp failed with
    stepFailed | ⟨operand, middle, stepped, emitFailed⟩
  · exact refuses before error after stepFailed
  · rcases goesOn before operand middle stepped with fits | rfl
    · rw [CompileM.emit, Instr.encode_wide isWide, if_pos fits] at emitFailed
      cases emitFailed
    · exact emit opcode [operand] middle error after emitFailed

/-- A literal is pooled only with the instruction that pushes it. -/
theorem literal (number : Int64) : Refuses (Expr.int number).generate := by
  refine (addConstant (.int number)).wide rfl fun before index after pooled => ?_
  simp only [CompileM.addConstant, bind_get] at pooled
  split at pooled
  case isTrue =>
    cases pooled
  case isFalse hasRoom =>
    cases pooled
    exact .inl (Nat.le_of_not_lt hasRoom)

/-- A name is defined only with the instruction that writes its slot. -/
theorem definition (name : String) :
    Refuses
      (CompileM.define name >>= fun slot =>
        CompileM.emit .setGlobal [slot]) := by
  refine (define name).wide rfl fun before slot after defined => ?_
  simp only [CompileM.define, bind_get] at defined
  split at defined
  case isTrue =>
    cases defined
  case isFalse hasRoom =>
    cases defined
    exact .inl (Nat.le_of_not_lt hasRoom)

/-- A name that cannot be read changes nothing. -/
theorem name (name : String) : Refuses (Expr.ident name).generate := by
  refine (resolve name).wide rfl fun before slot after found => .inr ?_
  simp only [CompileM.resolve, bind_get] at found
  cases resolved : before.scope.resolve? name with
  | none =>
      rw [resolved] at found
      cases found
  | some _ =>
      rw [resolved] at found
      cases found
      rfl

end Refuses

/-- A target that cannot be filled in changes no instruction. -/
theorem CompileM.patch_refuses
    {before after : Compilation} {error : CompileError} {draft : Draft}
    {offset operand : Nat}
    (represents : before.Represents draft)
    (failed : patch offset operand before = .error error after) :
    after.Represents draft := by
  simp only [patch, modifyAssembler, bind_modify, bind_get] at failed
  cases patched :
      (before.assembler.notePatch offset operand).code.patchedBytes offset
        operand with
  | error refusal =>
      rw [patched] at failed
      cases failed
      exact ⟨represents.tracks.notePatch _ _, represents.constants,
        represents.scope⟩
  | ok bytes =>
      rw [patched] at failed
      cases failed

/-- The draft with instructions at its end, and with what the demands that were
met have pooled and defined. -/
def Draft.extend
    (draft : Draft) (met : List Demand) (added : List Instr) : Draft where
  instrs := draft.instrs ++ added
  constants := draft.constants ++ ((literalsOfDemands met).map .int).toArray
  scope := draft.scope.defineAll (letsOfDemands met)

namespace Draft

variable {draft : Draft} {met : List Demand} {added : List Instr}

@[simp] theorem offset_extend :
    (draft.extend met added).offset = draft.offset + codeSize added := by
  simp [extend, offset]

@[simp] theorem numbering_extend :
    (draft.extend met added).numbering = draft.numbering.after met := by
  simp [extend, numbering, Numbering.after, Numbering.advance]

theorem extend_nil : draft.extend [] [] = draft := by
  simp [extend, Scope.defineAll]

/-- A draft is extended by two parts one after the other. -/
theorem extend_extend (later : List Demand) (more : List Instr) :
    (draft.extend met added).extend later more =
      draft.extend (met ++ later) (added ++ more) := by
  simp [extend, Scope.defineAll]

/-- A plan that is laid out extends a draft, with the demands that it is there
for. -/
theorem add_eq_extend
    {plan : Plan} {literals : List Int64} {lets : List String}
    (lists : literalsOfDemands met = literals ∧ letsOfDemands met = lets) :
    draft.add plan literals lets =
      draft.extend met (plan.layout draft.offset) := by
  rw [add, extend, lists.1, lists.2]

/-- A compilation has met demands since the draft, and has added the
instructions that serve them. -/
structure Grown (draft : Draft) (met : List Demand) (added : List Instr)
    (compilation : Compilation) : Prop where
  serves : Serves draft.numbering met added
  represents : compilation.Represents (draft.extend met added)

/--
What a result leaves of a draft.

A success has met all demands, with instructions of the given size. A failure
has met those before a demand with the fault that it reports.
-/
def Accounts (draft : Draft) (demands : List Demand) (size : Nat) :
    EStateM.Result CompileError Compilation PUnit → Prop
  | .ok _ after =>
      ∃ added, codeSize added = size ∧ draft.Grown demands added after
  | .error error after =>
      ∃ met demand rest added,
        demands = met ++ demand :: rest ∧
          demand.need.fault? (draft.numbering.after met) = some error ∧
          draft.Grown met added after

end Draft

/-- An action meets demands at the end of any code that begins as required, or
fails with the fault of the first that is not met. -/
def AccountsFor
    (begins : List Instr → Prop) (action : CompileM PUnit)
    (demands : Nat → List Demand) (size : Nat) : Prop :=
  ∀ (before : Compilation) (draft : Draft),
    before.Represents draft → begins draft.instrs →
    draft.Accounts (demands draft.offset) size (action before)

namespace Draft.Grown

variable {draft : Draft} {met demands : List Demand}
variable {added : List Instr} {before : Compilation}

/-- Nothing is added at first. -/
theorem refl (represents : before.Represents draft) :
    draft.Grown [] [] before :=
  ⟨.nil, by rwa [extend_nil]⟩

/-- What is added to an extended draft is added to the draft. -/
theorem trans
    {later : List Demand} {more : List Instr} {after : Compilation}
    (grown : draft.Grown met added before)
    (laterGrown : (draft.extend met added).Grown later more after) :
    draft.Grown (met ++ later) (added ++ more) after := by
  obtain ⟨serves, represents⟩ := laterGrown
  rw [numbering_extend] at serves
  rw [extend_extend] at represents
  exact ⟨grown.serves.append serves, represents⟩

/-- A failure behind what is added is one of the whole. -/
theorem accounts_error
    {later rest : List Demand} {laterSize : Nat} {error : CompileError}
    {after : Compilation}
    (grown : draft.Grown met added before)
    (accounted :
      (draft.extend met added).Accounts later laterSize
        (.error error after))
    (split : demands = met ++ later ++ rest) (size : Nat) :
    draft.Accounts demands size (.error error after) := by
  obtain ⟨laterMet, demand, laterRest, more, laterSplit, fault, laterGrown⟩ :=
    accounted
  rw [numbering_extend, ← Numbering.after_append] at fault
  refine ⟨met ++ laterMet, demand, laterRest ++ rest, added ++ more, ?_, fault,
    grown.trans laterGrown⟩
  rw [split, laterSplit]
  simp

/-- An action goes on behind what is added. -/
theorem accounts
    {begins : List Instr → Prop} {step : CompileM PUnit}
    {own : Nat → List Demand} {ownSize size : Nat}
    (grown : draft.Grown met added before)
    (stepAccounts : AccountsFor begins step own ownSize)
    (begun : begins (draft.instrs ++ added))
    (split : demands = met ++ own (draft.offset + codeSize added))
    (sizes : size = codeSize added + ownSize) :
    draft.Accounts demands size (step before) := by
  have accounted := stepAccounts before _ grown.represents begun
  rw [offset_extend] at accounted
  cases shape : step before with
  | ok _ after =>
      rw [shape] at accounted
      obtain ⟨more, moreSize, moreGrown⟩ := accounted
      rw [split, sizes]
      exact ⟨added ++ more, by rw [codeSize_append, moreSize],
        grown.trans moreGrown⟩
  | error error after =>
      rw [shape] at accounted
      exact grown.accounts_error accounted
        (split.trans (List.append_nil _).symm) size

/-- An action goes on behind what is added, and another one behind it. -/
theorem bind
    {begins : List Instr → Prop} {step next : CompileM PUnit}
    {own : Nat → List Demand} {rest : List Demand} {ownSize size : Nat}
    (grown : draft.Grown met added before)
    (stepAccounts : AccountsFor begins step own ownSize)
    (begun : begins (draft.instrs ++ added))
    (split : demands = met ++ own (draft.offset + codeSize added) ++ rest)
    (goesOn :
      ∀ more after,
        codeSize more = ownSize →
        draft.Grown (met ++ own (draft.offset + codeSize added))
          (added ++ more) after →
        draft.Accounts demands size (next after)) :
    draft.Accounts demands size ((step >>= fun _ => next) before) := by
  have accounted := stepAccounts before _ grown.represents begun
  rw [offset_extend] at accounted
  simp only [Bind.bind, EStateM.bind]
  cases shape : step before with
  | ok _ after =>
      rw [shape] at accounted
      obtain ⟨more, moreSize, moreGrown⟩ := accounted
      exact goesOn more after moreSize (grown.trans moreGrown)
  | error error after =>
      rw [shape] at accounted
      exact grown.accounts_error accounted split size

/-- The offset at which code goes on is that behind what is added. -/
theorem bind_here
    {α : Type} (grown : draft.Grown met added before)
    (next : Nat → CompileM α) :
    (here >>= next) before =
      next (draft.offset + codeSize added) before := by
  have atEnd : before.assembler.offset = (draft.extend met added).offset :=
    grown.represents.tracks.offset_eq
  rw [offset_extend] at atEnd
  exact congrArg (next · before) atEnd

/-- An instruction is laid down that neither names a constant nor writes a
slot. -/
theorem emit
    {opcode : Opcode} {operands : List Nat}
    (grown : draft.Grown met added before)
    (encodable : (Instr.mk opcode operands).Encodable)
    (notConstant : opcode ≠ .constant) (notWrite : opcode ≠ .setGlobal) :
    ∃ after,
      CompileM.emit opcode operands before = .ok () after ∧
        draft.Grown met (added ++ [⟨opcode, operands⟩]) after := by
  obtain ⟨_, after, succeeded, represents⟩ :=
    (emit_meets grown.represents encodable).exists_ok rfl
  refine ⟨after, succeeded, grown.serves.congr ?_ ?_, ?_⟩
  · simp [notConstant]
  · simp [notWrite]
  · simpa [Draft.emit, Draft.extend] using represents

/-- A jump whose target is not known yet is laid down. -/
theorem emitPending
    {opcode : Opcode} (grown : draft.Grown met added before)
    (jumps : opcode = .jumpNotTruthy ∨ opcode = .jump) :
    ∃ after,
      CompileM.emit opcode [pendingTarget] before = .ok () after ∧
        draft.Grown met (added ++ [⟨opcode, [pendingTarget]⟩]) after := by
  rcases jumps with rfl | rfl <;>
    exact grown.emit ⟨_, Instr.encode_wide rfl pendingTarget⟩ nofun nofun

/-- The target of a jump among what is added is filled in if it fits. If it does
not, the instructions stay as they are. -/
theorem patch
    {leading trailing : List Instr} {opcode : Opcode} {old : Nat}
    (grown :
      draft.Grown met (leading ++ ⟨opcode, [old]⟩ :: trailing) before)
    (jumps : opcode = .jumpNotTruthy ∨ opcode = .jump)
    (offset destination : Nat) :
    (∃ after,
      CompileM.patch (draft.offset + codeSize leading) destination before =
          .ok () after ∧
        draft.Grown (met ++ [⟨offset, .target opcode destination⟩])
          (leading ++ ⟨opcode, [destination]⟩ :: trailing) after) ∨
      ∃ error after,
        CompileM.patch (draft.offset + codeSize leading) destination before =
            .error error after ∧
          operandError? opcode destination = some error ∧
          draft.Grown met (leading ++ ⟨opcode, [old]⟩ :: trailing) after := by
  have wide : opcode.operandWidths = [2] := by
    rcases jumps with rfl | rfl <;> rfl
  have represents := grown.represents
  rw [extend, ← List.append_assoc] at represents
  have meets := patch_meets represents wide destination
  rw [codeSize_append, ← Draft.offset] at meets
  cases shape :
      CompileM.patch (draft.offset + codeSize leading) destination before with
  | ok _ after =>
      obtain ⟨accepted, patched⟩ := meets.of_ok shape
      have filled :
          Serves (draft.numbering.after met)
            [⟨offset, .target opcode destination⟩] [] :=
        .passing accepted rfl rfl rfl rfl
      refine .inl ⟨after, rfl, (grown.serves.append filled).congr ?_ ?_, ?_⟩
      · rcases jumps with rfl | rfl <;> simp
      · rcases jumps with rfl | rfl <;> simp
      · simpa [extend] using patched
  | error error after =>
      exact .inr ⟨error, after, rfl, meets.of_error shape, grown.serves,
        patch_refuses grown.represents shape⟩

/-- The end of what is added is filled in as the target of a jump among it. -/
theorem patchHere
    {leading trailing : List Instr} {opcode : Opcode} {old size : Nat}
    (grown :
      draft.Grown met (leading ++ ⟨opcode, [old]⟩ :: trailing) before)
    (jumps : opcode = .jumpNotTruthy ∨ opcode = .jump)
    (sizes : codeSize (leading ++ ⟨opcode, [old]⟩ :: trailing) = size) :
    draft.Accounts
      (met ++
        [⟨draft.offset + codeSize leading,
          .target opcode (draft.offset + size)⟩])
      size
      ((here >>= CompileM.patch (draft.offset + codeSize leading)) before) := by
  rw [grown.bind_here, sizes]
  rcases grown.patch jumps _ (draft.offset + size) with
    ⟨after, patched, filled⟩ | ⟨error, after, failed, fault, left⟩
  case inl =>
    rw [patched]
    refine ⟨_, ?_, filled⟩
    rw [← sizes, codeSize_append, codeSize_append]
    rfl
  case inr =>
    rw [failed]
    exact ⟨met, _, [], _, rfl, fault, left⟩

end Draft.Grown

end StackLang
