import StackLang.Proofs.Code.Format
import StackLang.Proofs.Compilation.Additions

namespace StackLang

open CompileM

/-!
# What generation leaves

Generating code meets the demands of a tree one after the other, and adds the
instructions that serve them. Where it fails, it stops at the first demand that
is not met, with those before it served.
-/

namespace AccountsFor

/-- Doing nothing meets no demand. -/
theorem empty : AccountsFor BeginsAnywhere (pure ()) (fun _ => []) 0 := by
  intro before draft represents _
  exact ⟨[], rfl, .refl represents⟩

/-- An instruction without operands is there for no demand of its own. -/
theorem bare
    (begins : List Instr → Prop) {opcode : Opcode}
    (isBare : opcode.operandWidths = []) :
    AccountsFor begins (emit opcode []) (fun _ => []) bareSize := by
  intro before draft represents _
  obtain ⟨after, succeeded, grown⟩ :=
    (Draft.Grown.refl represents).emit ⟨_, Instr.encode_bare isBare⟩
      (by rintro rfl; cases isBare) (by rintro rfl; cases isBare)
  rw [succeeded]
  refine ⟨_, ?_, grown⟩
  simp [Instr.size, Opcode.layout, Layout.operandSize, isBare, bareSize]

/-- What is laid out for one demand, or refused for its fault. -/
theorem single
    {begins : List Instr → Prop} {action : CompileM PUnit} {need : Need}
    {plan : Numbering → Plan} {literals : List Int64} {lets : List String}
    {size : Nat}
    (lays :
      LaysOut begins action (fun _ numbering => need.fault? numbering) plan
        literals lets)
    (refuses : Refuses action)
    (lists :
      ∀ offset,
        literalsOfDemands [⟨offset, need⟩] = literals ∧
          letsOfDemands [⟨offset, need⟩] = lets)
    (serves :
      ∀ offset start numbering, need.fault? numbering = none →
        Serves numbering [⟨offset, need⟩] ((plan numbering).layout start) ∧
          (plan numbering).size = size) :
    AccountsFor begins action (fun offset => [⟨offset, need⟩]) size := by
  intro before draft represents begun
  have meets := lays before draft represents begun
  cases shape : action before with
  | ok _ after =>
      obtain ⟨accepted, laidOut⟩ := meets.of_ok shape
      obtain ⟨ownServes, ownSize⟩ :=
        serves draft.offset draft.offset draft.numbering accepted
      rw [Draft.add_eq_extend (lists draft.offset)] at laidOut
      exact ⟨_, by rw [Plan.codeSize_layout, ownSize], ownServes, laidOut⟩
  | error error after =>
      have fault := meets.of_error shape
      obtain rfl := refuses before error after shape
      exact ⟨[], ⟨draft.offset, need⟩, [], [], rfl, fault, .refl represents⟩

theorem literal (number : Int64) :
    AccountsFor BeginsAnywhere (Expr.int number).generate
      (fun offset => [⟨offset, .literal number⟩]) wideSize := by
  refine single (.literal number) (.literal number) (fun _ => ⟨rfl, rfl⟩) ?_
  intro offset start numbering accepted
  exact ⟨⟨firstFault?_single.trans accepted, rfl, rfl⟩, rfl⟩

theorem name (name : String) :
    AccountsFor BeginsAnywhere (Expr.ident name).generate
      (fun offset => [⟨offset, .read name⟩]) wideSize := by
  refine single (.name name) (.name name) (fun _ => ⟨rfl, rfl⟩) ?_
  intro offset start numbering accepted
  exact ⟨.passing accepted rfl rfl rfl rfl, rfl⟩

theorem definition (name : String) :
    AccountsFor BeginsAnywhere
      (define name >>= fun slot => emit .setGlobal [slot])
      (fun offset => [⟨offset, .define name⟩]) wideSize := by
  refine single (.definition name) (.definition name) (fun _ => ⟨rfl, rfl⟩) ?_
  intro offset start numbering accepted
  exact ⟨⟨firstFault?_single.trans accepted, rfl, rfl⟩, rfl⟩

/-- The instruction of an operator names no constant and writes no slot. -/
theorem operator
    {begins : List Instr → Prop} {operator : String}
    {opcode? : Option Opcode} {need : Need}
    (known :
      ∀ numbering, need.fault? numbering = operatorError? operator opcode?)
    (bare : ∀ opcode, opcode? = some opcode → opcode.operandWidths = [])
    (passes :
      ∀ offset,
        (Demand.mk offset need).literal? = none ∧
          (Demand.mk offset need).defined? = none) :
    AccountsFor begins (emitOperator operator opcode?)
      (fun offset => [⟨offset, need⟩]) bareSize := by
  have lays :
      LaysOut begins (emitOperator operator opcode?)
        (fun _ numbering => need.fault? numbering)
        (fun _ => .ofOperator opcode?) [] [] := by
    intro before draft represents _
    simp only [known]
    exact emitOperator_meets represents bare
  refine single lays (.emitOperator operator opcode?) ?_ ?_
  · intro offset
    simp [literalsOfDemands, letsOfDemands, passes]
  · intro offset start numbering accepted
    have sizes :=
      Plan.size_ofOperator ((known numbering).symm.trans accepted) bare
    refine ⟨.passing accepted (passes offset).1 (passes offset).2 ?_ ?_, sizes⟩
    all_goals
      rw [known] at accepted
      obtain ⟨opcode, rfl⟩ := exists_opcode_of_accepted accepted
      have isBare := bare opcode rfl
      simp only [Plan.ofOperator, Plan.layout, operandsOf_cons, operandsOf_nil]
      rw [if_neg]
      rintro rfl
      cases isBare

theorem unary (operator : String) :
    AccountsFor BeginsAnywhere
      (emitOperator operator (unaryOpcode? operator))
      (fun offset => [⟨offset, .unary operator⟩]) bareSize :=
  .operator (fun _ => rfl) operandWidths_of_unary fun _ => ⟨rfl, rfl⟩

theorem binary {operator : String} (notLess : operator ≠ "<") :
    AccountsFor BeginsAnywhere
      (emitOperator operator (binaryOpcode? operator))
      (fun offset => [⟨offset, .binary operator⟩]) bareSize :=
  .operator (fun _ => if_neg notLess) operandWidths_of_binary
    fun _ => ⟨rfl, rfl⟩

/-- The comparison that has its operands exchanged is the greater one. -/
theorem less {operator : String} (isLess : operator = "<") :
    AccountsFor BeginsAnywhere (emit .greaterThan [])
      (fun offset => [⟨offset, .binary operator⟩]) bareSize := by
  have greater :
      AccountsFor BeginsAnywhere (emitOperator ">" (binaryOpcode? ">"))
        (fun offset => [⟨offset, .binary operator⟩]) bareSize :=
    .operator (fun _ => if_pos isLess) operandWidths_of_binary
      fun _ => ⟨rfl, rfl⟩
  exact greater

/-- What is not supported fails. -/
theorem unsupported (kind : String) :
    AccountsFor BeginsAnywhere (throw (.unsupportedNode kind))
      (fun offset => [⟨offset, .node kind⟩]) 0 := by
  intro before draft represents _
  exact ⟨[], _, [], [], rfl, rfl, .refl represents⟩

/-- One action after another meets the demands of both. -/
theorem seq
    {step next : CompileM PUnit} {first second : Nat → List Demand}
    {firstSize secondSize : Nat}
    (stepAccounts : AccountsFor BeginsAnywhere step first firstSize)
    (nextAccounts : AccountsFor BeginsAnywhere next second secondSize) :
    AccountsFor BeginsAnywhere (step >>= fun _ => next)
      (fun offset => first offset ++ second (offset + firstSize))
      (firstSize + secondSize) := by
  intro before draft represents _
  refine (Draft.Grown.refl represents).bind stepAccounts trivial rfl ?_
  intro added after addedSize grown
  subst addedSize
  exact grown.accounts nextAccounts trivial rfl rfl

/-- Statements that are accounted for can be the block of an arm. -/
theorem block
    {statements : List Stmt} {size : Nat}
    (accounts :
      AccountsFor BeginsAnywhere (generateStatements statements)
        (fun offset => demandsOfStatements offset statements) size) :
    AccountsFor BeginsArm (emitBlock (generateStatements statements))
      (fun offset => demandsOfStatements offset statements)
      (byteSizeOfArm statements) := by
  intro before draft represents begins
  have accounted := accounts before draft represents trivial
  have statementsLay := generateStatements_laysOut statements
  cases shape : generateStatements statements before with
  | error error after =>
      have failed :
          emitBlock (generateStatements statements) before =
            .error error after :=
        bind_eq_error_iff.mpr (.inl shape)
      rw [shape] at accounted
      rw [failed]
      exact accounted
  | ok _ middle =>
      obtain ⟨accepted, laidOut⟩ :=
        (statementsLay before draft represents trivial).of_ok shape
      rw [shape] at accounted
      obtain ⟨added, _, serves, middleRepresents⟩ := accounted
      have isLayout :
          added =
            (planStatements draft.numbering statements).layout
              draft.offset :=
        List.append_cancel_left
          (middleRepresents.tracks.consists.unique laidOut.tracks.consists)
      subst isLayout
      obtain ⟨_, after, succeeded, armLaidOut⟩ :=
        (emitBlock_laysOut statementsLay before draft represents
          begins).exists_ok accepted
      have retains := planArm_retainsValue draft.offset statements accepted
      rw [Draft.add_eq_extend (lists_of_demandsOfStatements draft.offset _)]
        at armLaidOut
      rw [succeeded]
      refine ⟨_, ?_, serves.congr ?_ ?_, armLaidOut⟩
      · rw [Plan.codeSize_layout, size_planArm statements accepted]
      · exact retains.operandsOf_eq nofun nofun
      · exact retains.operandsOf_eq nofun nofun

section Choice

variable {condition consequence alternative : CompileM PUnit}
variable {ofCondition ofConsequence ofAlternative : Nat → List Demand}
variable {conditionSize consequenceSize alternativeSize : Nat}

/-- Behind a consequence whose jumps have no targets yet, the first target is
filled in, the alternative laid down, and the second target filled in. -/
theorem fillChoice
    {draft : Draft} {met : List Demand} {leading chosen : List Instr}
    {before : Compilation}
    (alternativeAccounts :
      AccountsFor BeginsArm alternative ofAlternative alternativeSize)
    (grown :
      draft.Grown met
        (leading ++ ⟨.jumpNotTruthy, [pendingTarget]⟩ ::
          (chosen ++ [⟨.jump, [pendingTarget]⟩]))
        before) :
    let toAlternative := draft.offset + codeSize leading
    let toEnd := toAlternative + jumpSize + codeSize chosen
    let start := toEnd + jumpSize
    draft.Accounts
      (met ++
        ⟨toAlternative, .target .jumpNotTruthy start⟩ ::
          (ofAlternative start ++
            [⟨toEnd, .target .jump (start + alternativeSize)⟩]))
      (codeSize leading + jumpSize + codeSize chosen + jumpSize +
        alternativeSize)
      ((do
        patch toAlternative (← here)
        alternative
        patch toEnd (← here) : CompileM PUnit) before) := by
  intro toAlternative toEnd start
  let toStart : Demand := ⟨toAlternative, .target .jumpNotTruthy start⟩
  let toFinish : Demand := ⟨toEnd, .target .jump (start + alternativeSize)⟩
  have split :
      met ++ toStart :: (ofAlternative start ++ [toFinish]) =
        met ++ [toStart] ++ ofAlternative start ++ [toFinish] := by
    simp
  have startIsHere (target : Nat) :
      draft.offset +
          codeSize
            (leading ++ ⟨.jumpNotTruthy, [target]⟩ ::
              (chosen ++ [⟨.jump, [pendingTarget]⟩])) =
        start := by
    simp [start, toEnd, toAlternative]
    omega
  rw [grown.bind_here, startIsHere]
  rcases grown.patch (.inl rfl) toAlternative start with
    ⟨beforeAlternative, patched, filled⟩ | ⟨error, after, failed, fault, left⟩
  case inr =>
    rw [bind_of_error failed]
    exact ⟨met, toStart, _, _, rfl, fault, left⟩
  rw [bind_of_ok patched]
  -- Filling in a target moves nothing, so the alternative begins at `start`.
  refine filled.bind alternativeAccounts (by simp [BeginsArm])
    (by rw [startIsHere]; exact split) ?_
  intro more afterAlternative moreSize laidOut
  have opened :
      leading ++ ⟨.jumpNotTruthy, [start]⟩ ::
            (chosen ++ [⟨.jump, [pendingTarget]⟩]) ++ more =
        (leading ++ ⟨.jumpNotTruthy, [start]⟩ :: chosen) ++
          ⟨.jump, [pendingTarget]⟩ :: more := by
    simp
  rw [startIsHere, opened] at laidOut
  have jumpIsAtEnd :
      draft.offset +
          codeSize (leading ++ ⟨.jumpNotTruthy, [start]⟩ :: chosen) =
        toEnd := by
    simp [toEnd, toAlternative]
    omega
  have wholeSize :
      codeSize
          ((leading ++ ⟨.jumpNotTruthy, [start]⟩ :: chosen) ++
            ⟨.jump, [pendingTarget]⟩ :: more) =
        codeSize leading + jumpSize + codeSize chosen + jumpSize +
          alternativeSize := by
    simp [moreSize]
    omega
  have endIsHere :
      draft.offset +
          (codeSize leading + jumpSize + codeSize chosen + jumpSize +
            alternativeSize) =
        start + alternativeSize := by
    simp only [start, toEnd, toAlternative]
    omega
  have finished := laidOut.patchHere (.inr rfl) wholeSize
  rw [jumpIsAtEnd, endIsHere] at finished
  rw [split]
  exact finished

/-- A choice meets the demands of its parts, and its jumps those of their
targets. -/
theorem choice
    (conditionAccounts :
      AccountsFor BeginsAnywhere condition ofCondition conditionSize)
    (consequenceAccounts :
      AccountsFor BeginsArm consequence ofConsequence consequenceSize)
    (alternativeAccounts :
      AccountsFor BeginsArm alternative ofAlternative alternativeSize) :
    AccountsFor BeginsAnywhere (emitChoice condition consequence alternative)
      (fun offset =>
        let toAlternative := offset + conditionSize
        let toEnd := toAlternative + jumpSize + consequenceSize
        let start := toEnd + jumpSize
        ofCondition offset ++
          (ofConsequence (toAlternative + jumpSize) ++
            ⟨toAlternative, .target .jumpNotTruthy start⟩ ::
              (ofAlternative start ++
                [⟨toEnd, .target .jump (start + alternativeSize)⟩])))
      (conditionSize + jumpSize + consequenceSize + jumpSize +
        alternativeSize) := by
  intro before draft represents _
  refine (Draft.Grown.refl represents).bind conditionAccounts trivial rfl ?_
  intro conditionCode afterCondition conditionIsSize conditionLaid
  subst conditionIsSize
  change
    draft.Grown (ofCondition draft.offset) conditionCode afterCondition
    at conditionLaid
  rw [conditionLaid.bind_here]
  obtain ⟨beforeConsequence, emitted, jumpNotTruthyLaid⟩ :=
    conditionLaid.emitPending (.inl rfl)
  rw [bind_of_ok emitted]
  let toAlternative := draft.offset + codeSize conditionCode
  let toEnd := toAlternative + jumpSize + consequenceSize
  let start := toEnd + jumpSize
  let behind : List Demand :=
    ⟨toAlternative, .target .jumpNotTruthy start⟩ ::
      (ofAlternative start ++
        [⟨toEnd, .target .jump (start + alternativeSize)⟩])
  have split :
      ofCondition draft.offset ++
          (ofConsequence (toAlternative + jumpSize) ++ behind) =
        ofCondition draft.offset ++ ofConsequence (toAlternative + jumpSize) ++
          behind :=
    (List.append_assoc _ _ _).symm
  have consequenceIsHere :
      draft.offset +
          codeSize (conditionCode ++ [⟨.jumpNotTruthy, [pendingTarget]⟩]) =
        toAlternative + jumpSize := by
    simp [toAlternative, Nat.add_assoc]
  refine jumpNotTruthyLaid.bind consequenceAccounts (by simp [BeginsArm])
    (by rw [consequenceIsHere]; exact split) ?_
  intro chosen afterConsequence chosenSize chosenLaid
  subst chosenSize
  rw [consequenceIsHere] at chosenLaid
  rw [chosenLaid.bind_here]
  obtain ⟨beforePatch, emitted, jumpLaid⟩ :=
    chosenLaid.emitPending (.inr rfl)
  rw [bind_of_ok emitted]
  have jumpIsHere :
      draft.offset +
          codeSize
            (conditionCode ++ [⟨.jumpNotTruthy, [pendingTarget]⟩] ++ chosen) =
        toEnd := by
    simp [toEnd, toAlternative, Nat.add_assoc]
  rw [jumpIsHere]
  rw [List.append_assoc, List.append_assoc, List.singleton_append] at jumpLaid
  have filled := fillChoice alternativeAccounts jumpLaid
  change
    draft.Accounts
      (ofCondition draft.offset ++
        (ofConsequence (toAlternative + jumpSize) ++ behind))
      _ _
  rw [split]
  exact filled

end Choice

end AccountsFor

mutual

/-- Generating the code of an expression meets its demands. -/
theorem Expr.generate_accounts :
    (expression : Expr) →
      AccountsFor BeginsAnywhere expression.generate
        (fun offset => expression.demands offset) expression.byteSize
  | .ident name => by
      exact .name name
  | .int number => by
      exact .literal number
  | .bool true | .bool false => by
      exact .bare _ rfl
  | .str _ => by
      exact .unsupported "string literal"
  | .function _ _ => by
      exact .unsupported "function literal"
  | .call _ _ => by
      exact .unsupported "call expression"
  | .unary operator operand => by
      exact operand.generate_accounts.seq (.unary operator)
  | .binary left operator right => by
      by_cases isLess : operator = "<"
      · have accounts :=
          right.generate_accounts.seq
            (left.generate_accounts.seq (.less isLess))
        simp only [Expr.generate, Expr.demands, if_pos isLess]
        rw [Expr.byteSize, Nat.add_comm left.byteSize, Nat.add_assoc]
        exact accounts
      · have accounts :=
          left.generate_accounts.seq
            (right.generate_accounts.seq (.binary isLess))
        simp only [Expr.generate, Expr.demands, if_neg isLess]
        rw [Expr.byteSize, Nat.add_assoc]
        exact accounts
  | .ifThen condition consequence => by
      exact .choice condition.generate_accounts
        (.block (generateStatements_accounts consequence))
        (.bare BeginsArm rfl)
  | .ifElse condition consequence alternative => by
      exact .choice condition.generate_accounts
        (.block (generateStatements_accounts consequence))
        (.block (generateStatements_accounts alternative))
termination_by structural expression => expression

/-- Generating the code of a statement meets its demands. -/
theorem Stmt.generate_accounts :
    (statement : Stmt) →
      AccountsFor BeginsAnywhere statement.generate
        (fun offset => statement.demands offset) statement.byteSize
  | .define name value => by
      exact value.generate_accounts.seq (.definition name)
  | .ret _ => by
      exact .unsupported "return statement"
  | .expr value => by
      have accounts :=
        value.generate_accounts.seq
          (.bare BeginsAnywhere (rfl : Opcode.pop.operandWidths = []))
      simp only [List.append_nil] at accounts
      exact accounts
  | .block statements => by
      exact generateStatements_accounts statements
termination_by structural statement => statement

/-- Generating the code of statements meets their demands. -/
theorem generateStatements_accounts :
    (statements : List Stmt) →
      AccountsFor BeginsAnywhere (generateStatements statements)
        (fun offset => demandsOfStatements offset statements)
        (byteSizeOfStatements statements)
  | [] => by
      exact .empty
  | statement :: rest => by
      exact statement.generate_accounts.seq (generateStatements_accounts rest)
termination_by structural statements => statements

end

/-- The first fault of a program is that of its first demand that is not met. -/
theorem Program.firstError?_eq_firstFault?
    {scope : Scope} {constants : Array Value} {program : Program} :
    firstErrorOfStatements? 0 ⟨constants.size, scope⟩ program =
      firstFault? ⟨constants.size, scope⟩ program.demands := by
  have meets := @Program.generate_meets scope constants program
  have accounted :
      Draft.Accounts ⟨[], constants, scope⟩ program.demands
        (byteSizeOfStatements program)
        (program.generate (.resume scope constants)) :=
    generateStatements_accounts program _ _
      (Compilation.resume_represents scope constants) trivial
  cases generated : program.generate (.resume scope constants) with
  | ok _ after =>
      rw [generated] at accounted
      obtain ⟨_, _, grown⟩ := accounted
      exact (meets.of_ok generated).1.trans grown.serves.accepted.symm
  | error error after =>
      rw [generated] at accounted
      obtain ⟨met, demand, rest, _, split, fault, grown⟩ := accounted
      rw [meets.of_error generated, split]
      exact (firstFault?_of_fault grown.serves.accepted fault rest).symm

end StackLang
