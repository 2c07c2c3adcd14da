import StackLang.Proofs.Compilation.Steps

namespace StackLang

open CompileM

/-!
# Generated code is the plan, laid out

Generating code adds the layout of the tree's plan to the code that is there,
the tree's literals to the pool and its names to the scope; or it fails with the
tree's first fault. This accounts for emitting placeholders, taking pops off
arms and filling in targets once and for all: what follows about compiled code
is about plans.
-/

/-- An action lays a plan out at the end of any code that begins as required,
or fails with the foreseen error. -/
def LaysOut
    (begins : List Instr → Prop) (action : CompileM PUnit)
    (error? : Nat → Numbering → Option CompileError)
    (plan : Numbering → Plan) (literals : List Int64) (lets : List String) :
    Prop :=
  ∀ before draft, before.Represents draft → begins draft.instrs →
    Meets (action before) (error? draft.offset draft.numbering)
      (fun _ after =>
        after.Represents (draft.add (plan draft.numbering) literals lets))

/-- An arm begins behind a jump, so that no earlier pop is taken for its own. -/
def BeginsArm (instrs : List Instr) : Prop :=
  lastOpcode? instrs ≠ some .pop

/-- Code may begin anywhere. -/
def BeginsAnywhere (_ : List Instr) : Prop :=
  True

/-- Statements that are laid out anywhere can be the block of an arm. -/
theorem emitBlock_laysOut
    {statements : List Stmt}
    (statementsLay :
      LaysOut BeginsAnywhere (generateStatements statements)
        (fun offset numbering =>
          firstErrorOfStatements? offset numbering statements)
        (fun numbering => planStatements numbering statements)
        (literalsOfStatements statements) (letsOfStatements statements)) :
    LaysOut BeginsArm (emitBlock (generateStatements statements))
      (fun offset numbering =>
        firstErrorOfStatements? offset numbering statements)
      (fun numbering => planArm numbering statements)
      (literalsOfStatements statements) (letsOfStatements statements) := by
  intro before draft represents begins
  have generated :=
    (statementsLay before draft represents trivial).withoutError
  have kept :
      Meets (emitBlock (generateStatements statements) before)
        ((firstErrorOfStatements? draft.offset draft.numbering
          statements).or none)
        (fun _ after =>
          after.Represents
            (draft.add (planArm draft.numbering statements)
              (literalsOfStatements statements)
              (letsOfStatements statements))) := by
    apply generated.bind
    rintro _ middle ⟨accepted, laidOut⟩
    have retains :=
      planArm_retainsValue draft.offset statements accepted
    obtain ⟨opcode, ends, notPop⟩ :=
      planArm_endsInValue statements accepted
    rw [← Plan.lastOpcode?_layout _ draft.offset] at ends
    exact keepValue_meets laidOut rfl retains begins ends notPop
  rwa [Option.or_none] at kept

section Choice

variable {condition consequence alternative : CompileM PUnit}
variable {conditionError? consequenceError? alternativeError? :
  Nat → Numbering → Option CompileError}
variable {conditionPlan consequencePlan alternativePlan : Numbering → Plan}
variable {conditionLiterals consequenceLiterals alternativeLiterals :
  List Int64}
variable {conditionLets consequenceLets alternativeLets : List String}

/-- Behind a consequence whose jumps have no targets yet, the first target is
filled in, the alternative laid out, and the second target filled in. -/
theorem fillChoice_meets
    {before : Compilation} {leading chosenInstrs : List Instr}
    {constants : Array Value} {scope : Scope}
    (alternativeLays :
      LaysOut BeginsArm alternative alternativeError? alternativePlan
        alternativeLiterals alternativeLets)
    (represents :
      before.Represents
        ⟨leading ++ ⟨.jumpNotTruthy, [pendingTarget]⟩ ::
            (chosenInstrs ++ [⟨.jump, [pendingTarget]⟩]),
          constants, scope⟩) :
    let toEnd := codeSize leading + jumpSize + codeSize chosenInstrs
    let start := toEnd + jumpSize
    let numbering := Numbering.mk constants.size scope
    let plan := alternativePlan numbering
    Meets
      ((do
        patch (codeSize leading) (← here)
        alternative
        patch toEnd (← here) : CompileM PUnit) before)
      ((operandError? .jumpNotTruthy start).or
        ((alternativeError? start numbering).or
          (operandError? .jump (start + plan.size))))
      (fun _ after =>
        after.Represents
          ⟨leading ++ ⟨.jumpNotTruthy, [start]⟩ ::
              (chosenInstrs ++
                ⟨.jump, [start + plan.size]⟩ :: plan.layout start),
            constants ++ (alternativeLiterals.map Value.int).toArray,
            scope.defineAll alternativeLets⟩) := by
  intro toEnd start numbering plan
  have startIsHere (target : Nat) :
      Draft.offset
          ⟨leading ++ ⟨.jumpNotTruthy, [target]⟩ ::
              (chosenInstrs ++ [⟨.jump, [pendingTarget]⟩]),
            constants, scope⟩ = start := by
    simp [Draft.offset, start, toEnd]
    omega
  apply (here_meets represents).bindNone
  rintro _ _ ⟨rfl, represents'⟩
  rw [startIsHere]
  -- Filling in a target moves nothing, so the alternative begins at `start`.
  apply (patch_meets represents' rfl start).bind
  intro _ beforeAlternative filled
  have alternativeMeets :
      Meets (alternative beforeAlternative)
        (alternativeError? start numbering)
        (fun _ after =>
          after.Represents
            ⟨(leading ++ ⟨.jumpNotTruthy, [start]⟩ :: chosenInstrs) ++
                ⟨.jump, [pendingTarget]⟩ :: plan.layout start,
              constants ++ (alternativeLiterals.map Value.int).toArray,
              scope.defineAll alternativeLets⟩) := by
    have meets :=
      alternativeLays beforeAlternative _ filled (by simp [BeginsArm])
    rw [startIsHere] at meets
    refine meets.mono fun _ after laidOut => ?_
    rw [Draft.add, startIsHere] at laidOut
    simpa [Draft.numbering, numbering, plan] using laidOut
  apply alternativeMeets.bind
  intro _ afterAlternative laidOut
  apply (here_meets laidOut).bindNone
  rintro _ _ ⟨rfl, laidOut'⟩
  have endIsHere :
      Draft.offset
          ⟨(leading ++ ⟨.jumpNotTruthy, [start]⟩ :: chosenInstrs) ++
              ⟨.jump, [pendingTarget]⟩ :: plan.layout start,
            constants ++ (alternativeLiterals.map Value.int).toArray,
            scope.defineAll alternativeLets⟩ = start + plan.size := by
    simp [Draft.offset, start, toEnd]
    omega
  have jumpIsAtEnd :
      codeSize (leading ++ ⟨.jumpNotTruthy, [start]⟩ :: chosenInstrs) =
        toEnd := by
    simp [toEnd]
    omega
  rw [endIsHere, ← jumpIsAtEnd]
  apply (patch_meets laidOut' rfl (start + plan.size)).mono
  intro _ after result
  simpa using result

/-- A choice between pieces of code that are laid out is laid out, with the
targets of its jumps filled in. -/
theorem emitChoice_laysOut
    (conditionLays :
      LaysOut BeginsAnywhere condition conditionError? conditionPlan
        conditionLiterals conditionLets)
    (consequenceLays :
      LaysOut BeginsArm consequence consequenceError? consequencePlan
        consequenceLiterals consequenceLets)
    (alternativeLays :
      LaysOut BeginsArm alternative alternativeError? alternativePlan
        alternativeLiterals alternativeLets) :
    LaysOut BeginsAnywhere (emitChoice condition consequence alternative)
      (fun offset numbering =>
        let start := offset + (conditionPlan numbering).size + jumpSize
        let chosen := numbering.advance conditionLiterals conditionLets
        let alternativeStart :=
          start + (consequencePlan chosen).size + jumpSize
        let rejected := chosen.advance consequenceLiterals consequenceLets
        (conditionError? offset numbering).or
          ((consequenceError? start chosen).or
            ((operandError? .jumpNotTruthy alternativeStart).or
              ((alternativeError? alternativeStart rejected).or
                (operandError? .jump
                  (alternativeStart + (alternativePlan rejected).size))))))
      (fun numbering =>
        let chosen := numbering.advance conditionLiterals conditionLets
        let rejected := chosen.advance consequenceLiterals consequenceLets
        .seq (conditionPlan numbering)
          (.choice (consequencePlan chosen) (alternativePlan rejected)))
      (conditionLiterals ++ (consequenceLiterals ++ alternativeLiterals))
      (conditionLets ++ (consequenceLets ++ alternativeLets)) := by
  intro before draft represents _
  apply (conditionLays before draft represents trivial).bind
  intro _ afterCondition conditionLaid
  apply (here_meets conditionLaid).bindNone
  rintro toAlternative _ ⟨rfl, conditionLaid'⟩
  refine
    (emit_meets conditionLaid'
      ⟨_, Instr.encode_wide rfl pendingTarget⟩).bindNone ?_
  intro _ beforeConsequence jumpNotTruthyLaid
  have consequenceMeets :=
    consequenceLays beforeConsequence _ jumpNotTruthyLaid
      (by simp [BeginsArm, Draft.emit])
  simp only [Draft.offset_emit, Draft.offset_add, Draft.numbering_emit,
    Draft.numbering_add, size_jumpNotTruthy] at consequenceMeets
  apply consequenceMeets.bind
  intro _ afterConsequence consequenceLaid
  apply (here_meets consequenceLaid).bindNone
  rintro toEnd _ ⟨rfl, consequenceLaid'⟩
  refine
    (emit_meets consequenceLaid'
      ⟨_, Instr.encode_wide rfl pendingTarget⟩).bindNone ?_
  intro _ beforePatch jumpLaid
  have opened :
      beforePatch.Represents
        ⟨(draft.instrs ++
              (conditionPlan draft.numbering).layout draft.offset) ++
            ⟨.jumpNotTruthy, [pendingTarget]⟩ ::
              ((consequencePlan
                    (draft.numbering.advance conditionLiterals
                      conditionLets)).layout
                  (draft.offset + (conditionPlan draft.numbering).size +
                    jumpSize) ++
                [⟨.jump, [pendingTarget]⟩]),
          draft.constants ++ (conditionLiterals.map Value.int).toArray ++
            (consequenceLiterals.map Value.int).toArray,
          (draft.scope.defineAll conditionLets).defineAll
            consequenceLets⟩ := by
    rw [Draft.emit, Draft.add] at jumpLaid
    simpa [Draft.emit, Draft.add, Draft.offset, Nat.add_assoc]
      using jumpLaid
  have filled := fillChoice_meets alternativeLays opened
  have rejectedNumbering :
      Numbering.mk
          (draft.constants ++ (conditionLiterals.map Value.int).toArray ++
            (consequenceLiterals.map Value.int).toArray).size
          ((draft.scope.defineAll conditionLets).defineAll consequenceLets) =
        (draft.numbering.advance conditionLiterals conditionLets).advance
          consequenceLiterals consequenceLets := by
    simp [Numbering.advance, Draft.numbering, Nat.add_assoc]
  have draftOffset : codeSize draft.instrs = draft.offset :=
    rfl
  simp only [codeSize_append, Plan.codeSize_layout, rejectedNumbering,
    draftOffset] at filled
  simp only [Draft.offset_add, Draft.offset_emit, size_jumpNotTruthy]
  refine filled.mono fun _ after result => ?_
  simpa [Draft.add, Plan.layout, Scope.defineAll, Draft.offset,
    Nat.add_assoc] using result

end Choice

namespace LaysOut

variable {first second : CompileM PUnit}
variable {firstError? secondError? : Nat → Numbering → Option CompileError}
variable {firstPlan secondPlan : Numbering → Plan}
variable {firstLiterals secondLiterals : List Int64}
variable {firstLets secondLets : List String}

/-- One action after another lays the plans out in sequence. -/
theorem seq
    (firstLays :
      LaysOut BeginsAnywhere first firstError? firstPlan firstLiterals
        firstLets)
    (secondLays :
      LaysOut BeginsAnywhere second secondError? secondPlan secondLiterals
        secondLets) :
    LaysOut BeginsAnywhere (first >>= fun _ => second)
      (fun offset numbering =>
        (firstError? offset numbering).or
          (secondError? (offset + (firstPlan numbering).size)
            (numbering.advance firstLiterals firstLets)))
      (fun numbering =>
        .seq (firstPlan numbering)
          (secondPlan (numbering.advance firstLiterals firstLets)))
      (firstLiterals ++ secondLiterals) (firstLets ++ secondLets) := by
  intro before draft represents _
  apply (firstLays before draft represents trivial).bind
  intro _ middle firstLaid
  have secondMeets := secondLays middle _ firstLaid trivial
  rw [Draft.offset_add, Draft.numbering_add] at secondMeets
  refine secondMeets.mono fun _ after result => ?_
  rwa [Draft.add_add] at result

/-- Doing nothing lays out nothing. -/
theorem empty :
    LaysOut BeginsAnywhere (pure ()) (fun _ _ => none) (fun _ => .empty)
      [] [] := by
  intro before draft represents _
  rw [Draft.add_empty]
  exact represents

/-- An instruction without operands is laid out as it is. -/
theorem bare
    (begins : List Instr → Prop) {opcode : Opcode}
    (isBare : opcode.operandWidths = []) :
    LaysOut begins (emit opcode []) (fun _ _ => none)
      (fun _ => .single ⟨opcode, []⟩) [] [] := by
  intro before draft represents _
  rw [Draft.add_single]
  exact emit_meets represents ⟨_, Instr.encode_bare isBare⟩

/-- A prefix operator is laid out if there is one. -/
theorem unary (operator : String) :
    LaysOut BeginsAnywhere
      (emitOperator operator (unaryOpcode? operator))
      (fun _ _ => operatorError? operator (unaryOpcode? operator))
      (fun _ => .ofOperator (unaryOpcode? operator)) [] [] := by
  intro before draft represents _
  exact emitOperator_meets represents operandWidths_of_unary

/-- An infix operator is laid out if there is one. -/
theorem binary (operator : String) :
    LaysOut BeginsAnywhere
      (emitOperator operator (binaryOpcode? operator))
      (fun _ _ => operatorError? operator (binaryOpcode? operator))
      (fun _ => .ofOperator (binaryOpcode? operator)) [] [] := by
  intro before draft represents _
  exact emitOperator_meets represents operandWidths_of_binary

/-- A literal is pooled, and the instruction that pushes it laid out. -/
theorem literal (number : Int64) :
    LaysOut BeginsAnywhere (Expr.int number).generate
      (fun _ numbering => literalError? numbering)
      (fun numbering => .single ⟨.constant, [numbering.pool]⟩)
      [number] [] := by
  intro before draft represents _
  have laid :
      Meets ((Expr.int number).generate before)
        ((literalError? draft.numbering).or none)
        (fun _ after =>
          after.Represents
            (draft.add (.single ⟨.constant, [draft.numbering.pool]⟩)
              [number] [])) := by
    apply (addConstant_meets represents number).bind
    rintro _ middle ⟨rfl, inRange, pooled⟩
    have encodable :
        (Instr.mk .constant [draft.numbering.pool]).Encodable :=
      ⟨_, (Instr.encode_wide rfl _).trans (if_pos inRange)⟩
    refine (emit_meets pooled encodable).mono fun _ after result => ?_
    rwa [← Draft.add_single, Draft.add_add] at result
  rwa [Option.or_none] at laid

/-- The slot of a name is looked up, and the instruction that reads it laid
out. -/
theorem name (name : String) :
    LaysOut BeginsAnywhere (Expr.ident name).generate
      (fun _ numbering => nameError? numbering name)
      (fun numbering =>
        .single ⟨.getGlobal, [(numbering.scope.resolve? name).getD 0]⟩)
      [] [] := by
  intro before draft represents _
  rw [Expr.generate]
  cases resolved : draft.scope.resolve? name with
  | none =>
      have unresolved : before.scope.resolve? name = none := by
        rw [represents.scope, resolved]
      have refused :
          resolve name before = .error (.undefinedVariable name) before := by
        rw [resolve, bind_get, unresolved]
        rfl
      simp [nameError?, Draft.numbering, resolved, Bind.bind, EStateM.bind,
        refused, Meets]
  | some slot =>
      have named : draft.numbering.scope.resolve? name = some slot :=
        resolved
      simp only [nameError?, named]
      apply (resolve_meets represents resolved).bindNone
      rintro _ middle ⟨rfl, unchanged⟩
      rw [Option.getD_some, Draft.add_single]
      exact emit_wide_meets unchanged rfl _

/-- A name is defined, and the instruction that writes its slot laid out. -/
theorem definition (name : String) :
    LaysOut BeginsAnywhere
      (define name >>= fun slot => emit .setGlobal [slot])
      (fun _ numbering => definitionError? numbering)
      (fun numbering => .single ⟨.setGlobal, [numbering.scope.count]⟩)
      [] [name] := by
  intro before draft represents _
  have laid :
      Meets ((define name >>= fun slot => emit .setGlobal [slot]) before)
        ((definitionError? draft.numbering).or none)
        (fun _ after =>
          after.Represents
            (draft.add
              (.single ⟨.setGlobal, [draft.numbering.scope.count]⟩)
              [] [name])) := by
    apply (define_meets represents name).bind
    rintro _ middle ⟨rfl, inRange, defined⟩
    have encodable :
        (Instr.mk .setGlobal [draft.numbering.scope.count]).Encodable :=
      ⟨_, (Instr.encode_wide rfl _).trans (if_pos inRange)⟩
    refine (emit_meets defined encodable).mono fun _ after result => ?_
    rwa [← Draft.add_single, Draft.add_add] at result
  rwa [Option.or_none] at laid

/-- What is not supported fails. -/
theorem unsupported (kind : String) :
    LaysOut BeginsAnywhere (throw (.unsupportedNode kind))
      (fun _ _ => some (.unsupportedNode kind)) (fun _ => .empty)
      [] [] := by
  intro before draft _ _
  rfl

end LaysOut

mutual

/-- Generating the code of an expression lays out its plan. -/
theorem Expr.generate_laysOut :
    (expression : Expr) →
      LaysOut BeginsAnywhere expression.generate
        (fun offset numbering => expression.firstError? offset numbering)
        (fun numbering => expression.plan numbering)
        expression.literals expression.lets
  | .ident name => by
      exact .name name
  | .int number => by
      exact .literal number
  | .bool true | .bool false => by
      exact .bare _ rfl
  | .str _ => by
      exact .unsupported "string literal"
  | .function _ _ => by
      exact .unsupported "function literal"
  | .call _ _ => by
      exact .unsupported "call expression"
  | .unary operator operand => by
      have laid := operand.generate_laysOut.seq (.unary operator)
      simp only [List.append_nil] at laid
      exact laid
  | .binary left operator right => by
      by_cases isLess : operator = "<"
      · have laid :=
          right.generate_laysOut.seq
            (left.generate_laysOut.seq
              (.bare BeginsAnywhere (rfl : Opcode.greaterThan.operandWidths = [])))
        simp only [List.append_nil, Option.or_none] at laid
        simp only [Expr.generate, Expr.firstError?, Expr.plan,
          Expr.literals, Expr.lets, if_pos isLess]
        exact laid
      · have laid :=
          left.generate_laysOut.seq
            (right.generate_laysOut.seq (.binary operator))
        simp only [List.append_nil] at laid
        simp only [Expr.generate, Expr.firstError?, Expr.plan,
          Expr.literals, Expr.lets, if_neg isLess]
        exact laid
  | .ifThen condition consequence => by
      have laid :=
        emitChoice_laysOut condition.generate_laysOut
          (emitBlock_laysOut (generateStatements_laysOut consequence))
          (.bare BeginsArm (rfl : Opcode.pushNull.operandWidths = []))
      simp only [List.append_nil, Option.none_or] at laid
      exact laid
  | .ifElse condition consequence alternative => by
      exact emitChoice_laysOut condition.generate_laysOut
        (emitBlock_laysOut (generateStatements_laysOut consequence))
        (emitBlock_laysOut (generateStatements_laysOut alternative))
termination_by structural expression => expression

/-- Generating the code of a statement lays out its plan. -/
theorem Stmt.generate_laysOut :
    (statement : Stmt) →
      LaysOut BeginsAnywhere statement.generate
        (fun offset numbering => statement.firstError? offset numbering)
        (fun numbering => statement.plan numbering)
        statement.literals statement.lets
  | .define name value => by
      have laid := value.generate_laysOut.seq (.definition name)
      simp only [List.append_nil] at laid
      exact laid
  | .ret _ => by
      exact .unsupported "return statement"
  | .expr value => by
      have laid :=
        value.generate_laysOut.seq
          (.bare BeginsAnywhere (rfl : Opcode.pop.operandWidths = []))
      simp only [List.append_nil, Option.or_none] at laid
      exact laid
  | .block statements => by
      exact generateStatements_laysOut statements
termination_by structural statement => statement

/-- Generating the code of statements lays out their plan. -/
theorem generateStatements_laysOut :
    (statements : List Stmt) →
      LaysOut BeginsAnywhere (generateStatements statements)
        (fun offset numbering =>
          firstErrorOfStatements? offset numbering statements)
        (fun numbering => planStatements numbering statements)
        (literalsOfStatements statements) (letsOfStatements statements)
  | [] => by
      exact .empty
  | statement :: rest => by
      exact statement.generate_laysOut.seq (generateStatements_laysOut rest)
termination_by structural statements => statements

end

end StackLang
