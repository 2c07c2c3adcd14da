import StackLang.Proofs.Compilation.Accepted
import StackLang.Proofs.Compilation.Demands
import StackLang.Proofs.Compilation.Jumps
import StackLang.Proofs.Compilation.Names

namespace StackLang

/-!
# Variables in code

The instructions that read and write slots stand in the code in the order of the
traversal. They are read off the demands: a name that is read becomes a read of
the slot of its latest definition, and a definition a write of the next slot.
-/

/-- An instruction that reads or writes a slot. -/
def Opcode.isVariable : Opcode → Bool
  | .getGlobal | .setGlobal =>
      true
  | _ =>
      false

/-- A demand of a read or of a definition. -/
def Demand.isVariable (demand : Demand) : Bool :=
  match demand.need with
  | .read _ | .define _ =>
      true
  | _ =>
      false

/-- The reads and writes that are demanded where names are already bound. -/
def variableLines (bound : List String) : List Demand → List Line
  | [] =>
      []
  | ⟨offset, .read name⟩ :: rest =>
      ⟨offset, ⟨.getGlobal, [(latestSlot? bound name).getD 0]⟩⟩ ::
        variableLines bound rest
  | ⟨offset, .define name⟩ :: rest =>
      ⟨offset, ⟨.setGlobal, [bound.length]⟩⟩ ::
        variableLines (bound ++ [name]) rest
  | _ :: rest =>
      variableLines bound rest

/-- Further demands find the names of the earlier ones bound. -/
theorem variableLines_append
    (bound : List String) (first second : List Demand) :
    variableLines bound (first ++ second) =
      variableLines bound first ++
        variableLines (bound ++ letsOfDemands first) second := by
  induction first generalizing bound with
  | nil =>
      simp [variableLines]
  | cons demand rest inductionHypothesis =>
      rcases demand with ⟨offset, need⟩
      cases need <;> simp [variableLines, inductionHypothesis]

section Lines

variable {bound : List String} {demands before after : List Demand}
variable {offset : Nat} {name : String}

/-- A name that is read becomes a read of the slot of its latest definition. -/
theorem read_mem_variableLines
    (bound : List String)
    (split : demands = before ++ ⟨offset, .read name⟩ :: after) :
    ⟨offset,
        ⟨.getGlobal,
          [(latestSlot? (bound ++ letsOfDemands before) name).getD 0]⟩⟩ ∈
      variableLines bound demands := by
  rw [split, variableLines_append]
  exact List.mem_append_right _ List.mem_cons_self

/-- A definition becomes a write of the slot that is counted by the names
before it. -/
theorem write_mem_variableLines
    (bound : List String)
    (split : demands = before ++ ⟨offset, .define name⟩ :: after) :
    ⟨offset, ⟨.setGlobal, [(bound ++ letsOfDemands before).length]⟩⟩ ∈
      variableLines bound demands := by
  rw [split, variableLines_append]
  exact List.mem_append_right _ List.mem_cons_self

/-- Every read and every write is there for a demand. -/
theorem exists_demand_of_variableLine
    {line : Line} (member : line ∈ variableLines bound demands) :
    (line.instr.opcode = .getGlobal ∧
        ∃ name, ⟨line.offset, .read name⟩ ∈ demands) ∨
      (line.instr.opcode = .setGlobal ∧
        ∃ name, ⟨line.offset, .define name⟩ ∈ demands) := by
  induction demands generalizing bound with
  | nil =>
      cases member
  | cons demand rest inductionHypothesis =>
      have later {bound : List String}
          (inRest : line ∈ variableLines bound rest) :
          (line.instr.opcode = .getGlobal ∧
              ∃ name, ⟨line.offset, .read name⟩ ∈ demand :: rest) ∨
            (line.instr.opcode = .setGlobal ∧
              ∃ name, ⟨line.offset, .define name⟩ ∈ demand :: rest) := by
        rcases inductionHypothesis inRest with
          ⟨reads, name, found⟩ | ⟨writes, name, found⟩
        · exact .inl ⟨reads, name, List.mem_cons_of_mem demand found⟩
        · exact .inr ⟨writes, name, List.mem_cons_of_mem demand found⟩
      rcases demand with ⟨offset, need⟩
      cases need with
      | read name =>
          rcases List.mem_cons.mp member with rfl | inRest
          · exact .inl ⟨rfl, name, List.mem_cons_self⟩
          · exact later inRest
      | define name =>
          rcases List.mem_cons.mp member with rfl | inRest
          · exact .inr ⟨rfl, name, List.mem_cons_self⟩
          · exact later inRest
      | _ =>
          exact later member

end Lines

/-- The target of a jump is neither read nor written. -/
theorem variableLines_target
    (bound : List String) (offset destination : Nat) (opcode : Opcode)
    (rest : List Demand) :
    variableLines bound (⟨offset, .target opcode destination⟩ :: rest) =
      variableLines bound rest :=
  rfl

/-- Reads and writes stand where they are demanded. -/
theorem map_offset_variableLines
    (bound : List String) (demands : List Demand) :
    (variableLines bound demands).map Line.offset =
      (demands.filter Demand.isVariable).map Demand.offset := by
  induction demands generalizing bound with
  | nil =>
      rfl
  | cons demand rest inductionHypothesis =>
      rcases demand with ⟨offset, need⟩
      cases need <;>
        simp [variableLines, Demand.isVariable, List.filter_cons,
          inductionHypothesis]

namespace Plan

/-- The reads and writes of a plan that is laid out at an offset. -/
def accesses (plan : Plan) (start : Nat) : List Line :=
  (plan.lines start).filter (·.instr.opcode.isVariable)

variable {start : Nat}

@[simp] theorem accesses_empty : Plan.empty.accesses start = [] :=
  rfl

@[simp] theorem accesses_seq (first second : Plan) :
    (Plan.seq first second).accesses start =
      first.accesses start ++ second.accesses (start + first.size) := by
  simp [accesses, lines, layout]

/-- The jumps of a choice are neither reads nor writes. -/
@[simp] theorem accesses_choice (consequence alternative : Plan) :
    (Plan.choice consequence alternative).accesses start =
      consequence.accesses (start + jumpSize) ++
        alternative.accesses
          (start + jumpSize + consequence.size + jumpSize) := by
  simp [accesses, lines, layout, linesFrom, Opcode.isVariable, Nat.add_assoc]

/-- Operators neither read nor write. -/
theorem accesses_unary (operator : String) :
    (ofOperator (unaryOpcode? operator)).accesses start = [] := by
  unfold unaryOpcode?
  split <;> rfl

theorem accesses_binary (operator : String) :
    (ofOperator (binaryOpcode? operator)).accesses start = [] := by
  unfold binaryOpcode?
  split <;> rfl

section Parts

variable {bound lets : List String} {before after : List Demand} {size : Nat}

/-- The second part of a plan finds the names of the first one bound. -/
theorem accesses_seq_eq
    {first second : Plan}
    (firstEq : first.accesses start = variableLines bound before)
    (sizeEq : first.size = size) (letsEq : letsOfDemands before = lets)
    (secondEq :
      second.accesses (start + size) = variableLines (bound ++ lets) after) :
    (Plan.seq first second).accesses start =
      variableLines bound (before ++ after) := by
  rw [accesses_seq, variableLines_append, firstEq, sizeEq, letsEq, secondEq]

/-- The alternative of a choice finds the names of the consequence bound. -/
theorem accesses_choice_eq
    {consequence alternative : Plan}
    (consequenceEq :
      consequence.accesses (start + jumpSize) = variableLines bound before)
    (sizeEq : consequence.size = size) (letsEq : letsOfDemands before = lets)
    (alternativeEq :
      alternative.accesses (start + jumpSize + size + jumpSize) =
        variableLines (bound ++ lets) after) :
    (Plan.choice consequence alternative).accesses start =
      variableLines bound (before ++ after) := by
  rw [accesses_choice, variableLines_append, consequenceEq, sizeEq, letsEq,
    alternativeEq]

end Parts

end Plan

/-- A definition writes the slot that is counted by the names before it. -/
theorem Numbering.Binds.accesses_definition
    {offset : Nat} {numbering : Numbering} {bound : List String}
    {value : Expr} (name : String)
    (binds : numbering.Binds bound)
    (accepted : value.firstError? offset numbering = none)
    (valueEq :
      (value.plan numbering).accesses offset =
        variableLines bound (value.demands offset)) :
    ((Stmt.define name value).plan numbering).accesses offset =
      variableLines bound ((Stmt.define name value).demands offset) := by
  have lists := value.lists_of_demands offset
  have slot := (binds.advance value.literals value.lets).count
  rw [Stmt.plan, Stmt.demands, Expr.advance, slot]
  exact Plan.accesses_seq_eq valueEq (value.size_plan accepted) lists.2 rfl

mutual

/-- The reads and writes of an accepted expression are those it demands. -/
theorem Expr.accesses_plan
    {offset : Nat} {numbering : Numbering} {bound : List String}
    (binds : numbering.Binds bound) :
    (expression : Expr) →
      expression.firstError? offset numbering = none →
      (expression.plan numbering).accesses offset =
        variableLines bound (expression.demands offset)
  | .ident name, accepted => by
      have resolved := Scope.resolve?_bound bound name
      rw [← binds] at resolved
      rw [Expr.plan, Expr.demands, resolved]
      rfl
  | .int _, accepted | .bool true, accepted | .bool false, accepted => by
      rfl
  | .str _, accepted | .function _ _, accepted | .call _ _, accepted => by
      cases accepted
  | .unary operator operand, accepted => by
      rw [Expr.firstError?, Option.or_eq_none_iff] at accepted
      have lists := operand.lists_of_demands offset
      exact Plan.accesses_seq_eq (operand.accesses_plan binds accepted.1)
        (operand.size_plan accepted.1) lists.2 (Plan.accesses_unary operator)
  | .binary left operator right, accepted => by
      by_cases isLess : operator = "<"
      · simp only [Expr.firstError?, if_pos isLess, Option.or_eq_none_iff]
          at accepted
        have size := right.size_plan accepted.1
        have lists := right.lists_of_demands offset
        have bindsLeft := binds.advance right.literals right.lets
        rw [size] at accepted
        simp only [Expr.plan, Expr.demands, if_pos isLess]
        exact Plan.accesses_seq_eq (right.accesses_plan binds accepted.1)
          size lists.2
          (Plan.accesses_seq_eq (left.accesses_plan bindsLeft accepted.2)
            rfl rfl rfl)
      · simp only [Expr.firstError?, if_neg isLess, Option.or_eq_none_iff]
          at accepted
        have size := left.size_plan accepted.1
        have lists := left.lists_of_demands offset
        have bindsRight := binds.advance left.literals left.lets
        rw [size] at accepted
        simp only [Expr.plan, Expr.demands, if_neg isLess]
        exact Plan.accesses_seq_eq (left.accesses_plan binds accepted.1)
          size lists.2
          (Plan.accesses_seq_eq (right.accesses_plan bindsRight accepted.2.1)
            rfl rfl (Plan.accesses_binary operator))
  | .ifThen condition consequence, accepted => by
      simp only [Expr.firstError?, Option.or_eq_none_iff] at accepted
      have size := condition.size_plan accepted.1
      have lists := condition.lists_of_demands offset
      have bindsConsequence :=
        binds.advance condition.literals condition.lets
      rw [size] at accepted
      exact Plan.accesses_seq_eq (condition.accesses_plan binds accepted.1)
        size lists.2
        (Plan.accesses_choice_eq
          (accesses_planArm bindsConsequence consequence accepted.2.1)
          rfl rfl rfl)
  | .ifElse condition consequence alternative, accepted => by
      simp only [Expr.firstError?, Option.or_eq_none_iff] at accepted
      have size := condition.size_plan accepted.1
      have lists := condition.lists_of_demands offset
      have bindsConsequence :=
        binds.advance condition.literals condition.lets
      rw [size] at accepted
      have consequenceSize := size_planArm consequence accepted.2.1
      have consequenceLists :=
        lists_of_demandsOfStatements
          (offset + condition.byteSize + jumpSize) consequence
      have bindsAlternative :=
        bindsConsequence.advance (literalsOfStatements consequence)
          (letsOfStatements consequence)
      rw [consequenceSize] at accepted
      have alternativeEq :=
        accesses_planArm bindsAlternative alternative accepted.2.2.2.1
      refine Plan.accesses_seq_eq (condition.accesses_plan binds accepted.1)
        size lists.2
        (Plan.accesses_choice_eq
          (accesses_planArm bindsConsequence consequence accepted.2.1)
          consequenceSize consequenceLists.2 (alternativeEq.trans ?_))
      -- The targets of the two jumps are neither reads nor writes.
      rw [variableLines_target, variableLines_append]
      exact (List.append_nil _).symm
termination_by structural expression => expression

/-- The reads and writes of an accepted statement are those it demands. -/
theorem Stmt.accesses_plan
    {offset : Nat} {numbering : Numbering} {bound : List String}
    (binds : numbering.Binds bound) :
    (statement : Stmt) →
      statement.firstError? offset numbering = none →
      (statement.plan numbering).accesses offset =
        variableLines bound (statement.demands offset)
  | .define name value, accepted => by
      rw [Stmt.firstError?, Option.or_eq_none_iff] at accepted
      exact binds.accesses_definition name accepted.1
        (value.accesses_plan binds accepted.1)
  | .ret _, accepted => by
      cases accepted
  | .expr value, accepted => by
      rw [Stmt.plan, Plan.accesses_seq, value.accesses_plan binds accepted]
      exact List.append_nil _
  | .block statements, accepted => by
      exact accesses_planStatements binds statements accepted
termination_by structural statement => statement

/-- The reads and writes of accepted statements are those they demand. -/
theorem accesses_planStatements
    {offset : Nat} {numbering : Numbering} {bound : List String}
    (binds : numbering.Binds bound) :
    (statements : List Stmt) →
      firstErrorOfStatements? offset numbering statements = none →
      (planStatements numbering statements).accesses offset =
        variableLines bound (demandsOfStatements offset statements)
  | [], _ => by
      rfl
  | statement :: rest, accepted => by
      rw [firstErrorOfStatements?, Option.or_eq_none_iff] at accepted
      have size := statement.size_plan accepted.1
      have lists := statement.lists_of_demands offset
      have bindsRest := binds.advance statement.literals statement.lets
      rw [size] at accepted
      exact Plan.accesses_seq_eq (statement.accesses_plan binds accepted.1)
        size lists.2 (accesses_planStatements bindsRest rest accepted.2)
termination_by structural statements => statements

/-- The reads and writes of an accepted statement that ends an arm are those it
demands. -/
theorem Stmt.accesses_planTail
    {offset : Nat} {numbering : Numbering} {bound : List String}
    (binds : numbering.Binds bound) :
    (statement : Stmt) →
      statement.firstError? offset numbering = none →
      (statement.planTail numbering).accesses offset =
        variableLines bound (statement.demands offset)
  | .define name value, accepted => by
      rw [Stmt.firstError?, Option.or_eq_none_iff] at accepted
      have defined :=
        binds.accesses_definition name accepted.1
          (value.accesses_plan binds accepted.1)
      rw [Stmt.plan] at defined
      rw [Stmt.planTail, Plan.accesses_seq, defined]
      exact List.append_nil _
  | .ret _, accepted => by
      cases accepted
  | .expr value, accepted => by
      exact value.accesses_plan binds accepted
  | .block statements, accepted => by
      exact accesses_planArm binds statements accepted
termination_by structural statement => statement

/-- The reads and writes of an accepted arm are those it demands. -/
theorem accesses_planArm
    {offset : Nat} {numbering : Numbering} {bound : List String}
    (binds : numbering.Binds bound) :
    (statements : List Stmt) →
      firstErrorOfStatements? offset numbering statements = none →
      (planArm numbering statements).accesses offset =
        variableLines bound (demandsOfStatements offset statements)
  | [], _ => by
      rfl
  | statement :: rest, accepted => by
      rw [firstErrorOfStatements?, Option.or_eq_none_iff] at accepted
      rw [planArm, demandsOfStatements]
      split
      case isTrue isLast =>
        rw [demands_of_allEmpty _ rest isLast, List.append_nil]
        exact statement.accesses_planTail binds accepted.1
      case isFalse =>
        have size := statement.size_plan accepted.1
        have lists := statement.lists_of_demands offset
        have bindsRest := binds.advance statement.literals statement.lets
        rw [size] at accepted
        exact Plan.accesses_seq_eq (statement.accesses_plan binds accepted.1)
          size lists.2 (accesses_planArm bindsRest rest accepted.2)
termination_by structural statements => statements

end

section Programs

variable {program : Program} {after : Compilation}
variable (compiled : Compiled .empty #[] program after)

include compiled

/-- The reads and writes that are listed are those that the program demands. -/
theorem Compiled.accesses_eq :
    after.bytecode.code.listing.lines.toList.filter
        (·.instr.opcode.isVariable) =
      variableLines [] program.demands := by
  have empty : Numbering.Binds ⟨0, .empty⟩ [] := rfl
  rw [compiled.consists.listing_eq]
  exact accesses_planStatements empty program compiled.accepted

/-- Names are read and defined at increasing offsets. -/
theorem Compiled.accesses_ascend :
    (program.demands.filter Demand.isVariable).Pairwise
      (·.offset < ·.offset) := by
  have listed :
      after.bytecode.code.listing.lines.toList.Pairwise
        (·.offset < ·.offset) := by
    rw [compiled.consists.listing_eq]
    exact pairwise_linesFrom 0 _
  have ordered := listed.filter (·.instr.opcode.isVariable)
  rw [compiled.accesses_eq] at ordered
  have offsets :
      ((variableLines [] program.demands).map Line.offset).Pairwise
        (· < ·) :=
    List.pairwise_map.mpr ordered
  rw [map_offset_variableLines] at offsets
  exact List.pairwise_map.mp offsets

end Programs

end StackLang
