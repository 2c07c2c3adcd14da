import StackLang.Proofs.Compilation.Arm

namespace StackLang

/-!
# Steps of a compilation

Every step of a compilation either fails with a fault that can be told in
advance, or takes the draft of what is laid down so far to another draft.
`Meets` states this of one step, and `Meets.bind` of a step after another.
-/

/-- A result is as foreseen: the foreseen error, or a state as described. -/
def Meets {α : Type}
    (result : EStateM.Result CompileError Compilation α)
    (error? : Option CompileError)
    (described : α → Compilation → Prop) : Prop :=
  match error?, result with
  | none, .ok value after =>
      described value after
  | some error, .error raised _ =>
      raised = error
  | _, _ =>
      False

namespace Meets

variable {α β : Type} {before : Compilation}
variable {first second : Option CompileError}

/-- One step after the other: the first fault of the two is raised. -/
theorem bind
    {step : CompileM α} {next : α → CompileM β}
    {middle : α → Compilation → Prop} {described : β → Compilation → Prop}
    (stepMeets : Meets (step before) first middle)
    (nextMeets :
      ∀ value after, middle value after →
        Meets (next value after) second described) :
    Meets ((step >>= next) before) (first.or second) described := by
  cases shape : step before with
  | ok value after =>
      cases first with
      | none =>
          rw [shape] at stepMeets
          have tail := nextMeets value after stepMeets
          simpa [Bind.bind, EStateM.bind, shape] using tail
      | some error =>
          rw [shape] at stepMeets
          exact stepMeets.elim
  | error raised after =>
      cases first with
      | none =>
          rw [shape] at stepMeets
          exact stepMeets.elim
      | some error =>
          rw [shape] at stepMeets
          simp only [Bind.bind, EStateM.bind, shape]
          exact stepMeets

/-- A step without a fault of its own leaves the fault to the next. -/
theorem bindNone
    {step : CompileM α} {next : α → CompileM β}
    {middle : α → Compilation → Prop} {described : β → Compilation → Prop}
    (stepMeets : Meets (step before) none middle)
    (nextMeets :
      ∀ value after, middle value after →
        Meets (next value after) second described) :
    Meets ((step >>= next) before) second described := by
  simpa using bind stepMeets nextMeets

/-- A state is described only where there is no fault. -/
theorem withoutError
    {result : EStateM.Result CompileError Compilation α}
    {described : α → Compilation → Prop}
    (meets : Meets result first described) :
    Meets result first
      (fun value after => first = none ∧ described value after) := by
  cases first <;> cases result
  · exact ⟨rfl, meets⟩
  · exact meets
  · exact meets
  · exact meets

/-- A result may be described more loosely. -/
theorem mono
    {result : EStateM.Result CompileError Compilation α}
    {described looser : α → Compilation → Prop}
    (meets : Meets result first described)
    (implies : ∀ value after, described value after → looser value after) :
    Meets result first looser := by
  cases first <;> cases result
  · exact implies _ _ meets
  · exact meets
  · exact meets
  · exact meets

end Meets

/-- What a compilation has laid down, with its code as instructions. -/
structure Draft where
  instrs : List Instr
  constants : Array Value
  scope : Scope

namespace Draft

/-- The offset at which the next instruction begins. -/
def offset (draft : Draft) : Nat :=
  codeSize draft.instrs

/-- The numbers that the next instructions start from. -/
def numbering (draft : Draft) : Numbering where
  pool := draft.constants.size
  scope := draft.scope

/-- The draft with a plan laid out at its end. -/
def add (draft : Draft) (plan : Plan)
    (literals : List Int64) (lets : List String) : Draft where
  instrs := draft.instrs ++ plan.layout draft.offset
  constants := draft.constants ++ (literals.map Value.int).toArray
  scope := draft.scope.defineAll lets

/-- The draft with one more instruction. -/
def emit (draft : Draft) (instr : Instr) : Draft :=
  { draft with instrs := draft.instrs ++ [instr] }

variable {draft : Draft} {plan first second : Plan}
variable {literals firstLiterals secondLiterals : List Int64}
variable {lets firstLets secondLets : List String}

@[simp] theorem offset_add :
    (draft.add plan literals lets).offset = draft.offset + plan.size := by
  simp [add, offset]

@[simp] theorem numbering_add :
    (draft.add plan literals lets).numbering =
      draft.numbering.advance literals lets := by
  simp [add, numbering, Numbering.advance]

@[simp] theorem offset_emit {instr : Instr} :
    (draft.emit instr).offset = draft.offset + instr.size := by
  simp [emit, offset]

@[simp] theorem numbering_emit {instr : Instr} :
    (draft.emit instr).numbering = draft.numbering :=
  rfl

/-- Adding one plan after another adds them in sequence. -/
theorem add_add :
    (draft.add first firstLiterals firstLets).add
        second secondLiterals secondLets =
      draft.add (.seq first second) (firstLiterals ++ secondLiterals)
        (firstLets ++ secondLets) := by
  simp [add, offset, Plan.layout, Scope.defineAll]

/-- A plan of one instruction adds this instruction. -/
theorem add_single {instr : Instr} :
    draft.add (.single instr) [] [] = draft.emit instr := by
  simp [add, emit, Plan.layout, Scope.defineAll]

/-- An empty plan adds nothing. -/
theorem add_empty : draft.add .empty [] [] = draft := by
  simp [add, Plan.layout, Scope.defineAll]

end Draft

/-- A compilation has laid down a draft. -/
structure Compilation.Represents
    (compilation : Compilation) (draft : Draft) : Prop where
  tracks : compilation.assembler.Tracks draft.instrs
  constants : compilation.constants = draft.constants
  scope : compilation.scope = draft.scope

/-- A fresh compilation has laid down nothing. -/
theorem Compilation.resume_represents
    (scope : Scope) (constants : Array Value) :
    (Compilation.resume scope constants).Represents
      ⟨[], constants, scope⟩ :=
  ⟨.empty, rfl, rfl⟩

namespace CompileM

variable {before : Compilation} {draft : Draft}
variable (represents : before.Represents draft)

include represents

/-- Asking for the offset changes nothing. -/
theorem here_meets :
    Meets (here before) none
      (fun offset after => offset = draft.offset ∧ after.Represents draft) :=
  ⟨represents.tracks.offset_eq, represents⟩

/-- An instruction that can be encoded is laid down. -/
theorem emit_meets
    {opcode : Opcode} {operands : List Nat}
    (encodable : (Instr.mk opcode operands).Encodable) :
    Meets (emit opcode operands before) none
      (fun _ after => after.Represents (draft.emit ⟨opcode, operands⟩)) := by
  obtain ⟨encoded, accepted⟩ := encodable
  simp only [emit, accepted]
  exact ⟨represents.tracks.emit accepted, represents.constants,
    represents.scope⟩

/-- An instruction with one operand is laid down if the operand fits. -/
theorem emit_wide_meets
    {opcode : Opcode} (wide : opcode.operandWidths = [2]) (operand : Nat) :
    Meets (emit opcode [operand] before) (operandError? opcode operand)
      (fun _ after =>
        after.Represents (draft.emit ⟨opcode, [operand]⟩)) := by
  have encoded := Instr.encode_wide wide operand
  by_cases fits : operand ≤ maxOperand
  · rw [if_pos fits] at encoded
    rw [operandError?, if_pos fits]
    exact emit_meets represents ⟨_, encoded⟩
  · rw [if_neg fits] at encoded
    rw [operandError?, if_neg fits]
    simp only [emit, encoded]
    rfl

/-- An operator is laid down if it has an instruction. -/
theorem emitOperator_meets
    {operator : String} {opcode? : Option Opcode}
    (bare : ∀ opcode, opcode? = some opcode → opcode.operandWidths = []) :
    Meets (emitOperator operator opcode? before)
      (operatorError? operator opcode?)
      (fun _ after =>
        after.Represents (draft.add (.ofOperator opcode?) [] [])) := by
  cases opcode? with
  | none =>
      rfl
  | some opcode =>
      have meets := emit_meets represents
        ⟨_, Instr.encode_bare (bare opcode rfl)⟩
      rwa [← Draft.add_single] at meets

/-- A literal is pooled unless the pool is full. -/
theorem addConstant_meets (number : Int64) :
    Meets (addConstant (.int number) before)
      (literalError? draft.numbering)
      (fun index after =>
        index = draft.numbering.pool ∧ index ≤ maxOperand ∧
          after.Represents (draft.add .empty [number] [])) := by
  have poolSize : before.constants.size = draft.numbering.pool := by
    rw [represents.constants]
    rfl
  by_cases full : maxOperand < draft.numbering.pool
  · rw [literalError?, if_pos full]
    simp only [addConstant, bind_get, poolSize, if_pos full]
    rfl
  · rw [literalError?, if_neg full]
    simp only [addConstant, bind_get, poolSize, if_neg full]
    refine ⟨rfl, Nat.le_of_not_lt full, ?_, ?_, represents.scope⟩
    · simpa [Draft.add, Plan.layout] using represents.tracks
    · simp [Draft.add, represents.constants]

/-- A name that has a slot is resolved to it. -/
theorem resolve_meets {name : String} {slot : Nat}
    (resolved : draft.scope.resolve? name = some slot) :
    Meets (resolve name before) none
      (fun found after => found = slot ∧ after.Represents draft) := by
  simp only [resolve, bind_get, represents.scope, resolved]
  exact ⟨rfl, represents⟩

/-- A name is defined unless all slots are taken. -/
theorem define_meets (name : String) :
    Meets (define name before) (definitionError? draft.numbering)
      (fun slot after =>
        slot = draft.numbering.scope.count ∧ slot ≤ maxOperand ∧
          after.Represents (draft.add .empty [] [name])) := by
  have slotCount : before.scope.count = draft.numbering.scope.count := by
    rw [represents.scope]
    rfl
  by_cases full : maxOperand < draft.numbering.scope.count
  · rw [definitionError?, if_pos full]
    simp only [define, bind_get, slotCount, if_pos full]
    rfl
  · rw [definitionError?, if_neg full]
    simp only [define, bind_get, slotCount, if_neg full]
    refine ⟨rfl, Nat.le_of_not_lt full, ?_, ?_, ?_⟩
    · simpa [Draft.add, Plan.layout] using represents.tracks
    · simp [Draft.add, represents.constants]
    · simp [Draft.add, Scope.defineAll, represents.scope]

/-- An arm of a choice is ended so that it retains its value. -/
theorem keepValue_meets
    {leading arm code : List Instr} {opcode : Opcode}
    (shape : draft.instrs = leading ++ code)
    (retains : RetainsValue arm code)
    (begins : lastOpcode? leading ≠ some .pop)
    (ends : lastOpcode? arm = some opcode)
    (notPop : opcode ≠ .pop) :
    Meets (keepValue before) none
      (fun _ after =>
        after.Represents { draft with instrs := leading ++ arm }) := by
  have tracks := represents.tracks
  rw [shape] at tracks
  rcases retains with endsInPop | ⟨padded, noPop⟩
  · rw [endsInPop, ← List.append_assoc] at tracks
    have popped : before.assembler.endsWith .pop = true := by
      rw [tracks.endsWith_iff]
      simp
    have single : lastOpcode? (leading ++ arm) ≠ some .pop := by
      simp [ends, notPop]
    simp only [keepValue, bind_get, popped, if_true]
    exact ⟨tracks.retract single, represents.constants, represents.scope⟩
  · have notPopped : ¬ before.assembler.endsWith .pop = true := by
      rw [tracks.endsWith_iff, lastOpcode?_append]
      cases last : lastOpcode? code with
      | none =>
          simpa using begins
      | some closing =>
          rwa [Option.some_or, ← last]
    simp only [keepValue, bind_get, if_neg notPopped]
    have emitted := emit_meets represents
      ⟨[Opcode.pushNull.byte], Instr.encode_bare rfl⟩
    refine emitted.mono fun _ after result => ?_
    rwa [Draft.emit, shape, List.append_assoc, ← padded] at result

omit represents in
/-- The operand of an earlier instruction is filled in if it fits. -/
theorem patch_meets
    {leading trailing : List Instr} {opcode : Opcode} {old : Nat}
    {constants : Array Value} {scope : Scope}
    (represents :
      before.Represents
        ⟨leading ++ ⟨opcode, [old]⟩ :: trailing, constants, scope⟩)
    (wide : opcode.operandWidths = [2]) (operand : Nat) :
    Meets (patch (codeSize leading) operand before)
      (operandError? opcode operand)
      (fun _ after =>
        after.Represents
          ⟨leading ++ ⟨opcode, [operand]⟩ :: trailing, constants,
            scope⟩) := by
  have noted :
      (before.assembler.notePatch (codeSize leading) operand).Tracks
        (leading ++ ⟨opcode, [old]⟩ :: trailing) :=
    represents.tracks.notePatch _ _
  have patched :
      (before.assembler.notePatch (codeSize leading) operand).code.patchedBytes
          (codeSize leading) operand =
        (Instr.mk opcode [operand]).encode :=
    noted.consists.patchedBytes_eq
  have encoded := Instr.encode_wide wide operand
  by_cases fits : operand ≤ maxOperand
  · rw [if_pos fits] at encoded
    rw [encoded] at patched
    rw [operandError?, if_pos fits]
    simp only [patch, modifyAssembler, bind_modify, bind_get, patched]
    exact ⟨noted.overwrite encoded, represents.constants,
      represents.scope⟩
  · rw [if_neg fits] at encoded
    rw [encoded] at patched
    rw [operandError?, if_neg fits]
    simp only [patch, modifyAssembler, bind_modify, bind_get, patched]
    rfl

end CompileM

end StackLang
