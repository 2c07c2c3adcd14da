import StackLang.Proofs.Compilation.Accounts
import StackLang.Proofs.Compilation.Names

namespace StackLang

/-!
# The supported language

A program is compiled exactly when all its demands are met. Whether a demand is
met depends on the demands before it alone: on the literals that they pool and
on the names that they define. A program that is rejected is rejected for its
first demand that is not met.
-/

/-- The prefix operators that have an instruction. -/
def unaryOperators : List String :=
  ["!", "-"]

/-- The infix operators that have an instruction. -/
def binaryOperators : List String :=
  ["+", "-", "*", "/", ">", "<", "==", "!="]

/-- The fault of a need after the demands that come earlier. -/
def Need.violation? (earlier : List Demand) : Need → Option CompileError
  | .node kind =>
      some (.unsupportedNode kind)
  | .unary operator =>
      if operator ∈ unaryOperators then
        none
      else
        some (.unknownOperator operator)
  | .binary operator =>
      if operator ∈ binaryOperators then
        none
      else
        some (.unknownOperator operator)
  | .literal _ =>
      let index := (literalsOfDemands earlier).length
      if index ≤ maxOperand then
        none
      else
        some (.constantPoolOverflow index)
  | .read name =>
      if name ∈ letsOfDemands earlier then
        none
      else
        some (.undefinedVariable name)
  | .define _ =>
      let slot := (letsOfDemands earlier).length
      if slot ≤ maxOperand then
        none
      else
        some (.tooManyGlobals slot)
  | .target opcode destination =>
      if destination ≤ maxOperand then
        none
      else
        some (.encode (.operandOutOfRange opcode destination 2))

/-- Each of the demands is met after those before it. -/
def Met (demands : List Demand) : Prop :=
  ∀ before demand after, demands = before ++ demand :: after →
    demand.need.violation? before = none

/-- The first demand that is not met has this fault. -/
def FirstViolation (demands : List Demand) (error : CompileError) : Prop :=
  ∃ before demand after,
    demands = before ++ demand :: after ∧ Met before ∧
      demand.need.violation? before = some error

/-- A program of the language that is supported. -/
structure Program.Supported (program : Program) : Prop where
  /-- There are no nodes without an implementation. -/
  implemented :
    ∀ demand ∈ program.demands, ∀ kind, demand.need ≠ .node kind
  /-- The prefix operators have an instruction. -/
  unaryKnown :
    ∀ demand ∈ program.demands, ∀ operator,
      demand.need = .unary operator → operator ∈ unaryOperators
  /-- The infix operators have an instruction. -/
  binaryKnown :
    ∀ demand ∈ program.demands, ∀ operator,
      demand.need = .binary operator → operator ∈ binaryOperators
  /-- A name is defined before it is read. -/
  namesDefined :
    ∀ before offset name after,
      program.demands = before ++ ⟨offset, .read name⟩ :: after →
        ∃ demand ∈ before, demand.need = .define name
  /-- The literals have room in the pool. -/
  literalsFit : (literalsOfStatements program).length ≤ maxOperand + 1
  /-- There are slots for all definitions. -/
  letsFit : (letsOfStatements program).length ≤ maxOperand + 1
  /-- The targets of the jumps fit their operands. -/
  targetsFit :
    ∀ demand ∈ program.demands, ∀ opcode target,
      demand.need = .target opcode target → target ≤ maxOperand

section Scan

variable {earlier demands : List Demand} {error : CompileError}

/-- The fault of the first demand that is not met. -/
def firstViolation? (earlier : List Demand) :
    List Demand → Option CompileError
  | [] =>
      none
  | demand :: rest =>
      (demand.need.violation? earlier).or
        (firstViolation? (earlier ++ [demand]) rest)

/-- Demands in two parts are scanned one part after the other. -/
theorem firstViolation?_append (first second : List Demand) :
    firstViolation? earlier (first ++ second) =
      (firstViolation? earlier first).or
        (firstViolation? (earlier ++ first) second) := by
  induction first generalizing earlier with
  | nil =>
      simp [firstViolation?]
  | cons demand rest inductionHypothesis =>
      simp [firstViolation?, inductionHypothesis, Option.or_assoc]

/-- A fault is that of a demand that follows none but met ones. -/
theorem exists_of_firstViolation?
    (violated : firstViolation? earlier demands = some error) :
    ∃ before demand after,
      demands = before ++ demand :: after ∧
        firstViolation? earlier before = none ∧
        demand.need.violation? (earlier ++ before) = some error := by
  induction demands generalizing earlier with
  | nil =>
      cases violated
  | cons demand rest inductionHypothesis =>
      rw [firstViolation?] at violated
      cases own : demand.need.violation? earlier with
      | some raised =>
          rw [own] at violated
          refine ⟨[], demand, rest, rfl, rfl, ?_⟩
          rw [List.append_nil, own]
          exact violated
      | none =>
          rw [own, Option.none_or] at violated
          obtain ⟨before, later, after, rfl, met, violated⟩ :=
            inductionHypothesis violated
          refine ⟨demand :: before, later, after, rfl, ?_, ?_⟩
          · rw [firstViolation?, own, Option.none_or, met]
          · simpa using violated

/-- The scan finds nothing exactly when all demands are met. -/
theorem firstViolation?_eq_none_iff :
    firstViolation? [] demands = none ↔ Met demands := by
  constructor
  case mp =>
    rintro accepted before demand after rfl
    simp only [firstViolation?_append, firstViolation?, List.nil_append,
      Option.or_eq_none_iff] at accepted
    exact accepted.2.1
  case mpr =>
    intro met
    cases scanned : firstViolation? [] demands with
    | none =>
        rfl
    | some error =>
        obtain ⟨before, demand, after, rfl, _, violated⟩ :=
          exists_of_firstViolation? scanned
        rw [List.nil_append, met before demand after rfl] at violated
        cases violated

/-- The scan finds the fault of the first demand that is not met. -/
theorem firstViolation?_eq_some_iff :
    firstViolation? [] demands = some error ↔
      FirstViolation demands error := by
  constructor
  case mp =>
    intro scanned
    obtain ⟨before, demand, after, split, met, violated⟩ :=
      exists_of_firstViolation? scanned
    exact ⟨before, demand, after, split,
      firstViolation?_eq_none_iff.mp met, violated⟩
  case mpr =>
    rintro ⟨before, demand, after, rfl, met, violated⟩
    rw [firstViolation?_append, firstViolation?_eq_none_iff.mpr met,
      Option.none_or, List.nil_append, firstViolation?, violated]
    rfl

/-- Demands pool no more literals than there are indices, and define no more
names than there are slots. -/
structure Fit (demands : List Demand) : Prop where
  literals : (literalsOfDemands demands).length ≤ maxOperand + 1
  lets : (letsOfDemands demands).length ≤ maxOperand + 1

theorem Fit.nil : Fit [] :=
  ⟨Nat.zero_le _, Nat.zero_le _⟩

/-- A demand that is met leaves as many literals and names as there may be. -/
theorem Fit.snoc
    {demand : Demand} (fit : Fit earlier)
    (met : demand.need.violation? earlier = none) :
    Fit (earlier ++ [demand]) := by
  rcases demand with ⟨offset, need⟩
  rcases fit with ⟨literals, lets⟩
  constructor <;> cases need <;> simp_all [Need.violation?]

/-- Demands that are met leave as many literals and names as there may be. -/
theorem Fit.append
    (fit : Fit earlier) (accepted : firstViolation? earlier demands = none) :
    Fit (earlier ++ demands) := by
  induction demands generalizing earlier with
  | nil =>
      rwa [List.append_nil]
  | cons demand rest inductionHypothesis =>
      rw [firstViolation?, Option.or_eq_none_iff] at accepted
      simpa using inductionHypothesis (fit.snoc accepted.1) accepted.2

end Scan

/-- A numbering that is reached after demands that are met. -/
structure Numbering.Follows
    (numbering : Numbering) (earlier : List Demand) : Prop where
  pool : numbering.pool = (literalsOfDemands earlier).length
  binds : numbering.Binds (letsOfDemands earlier)
  fit : Fit earlier

section Follows

variable {numbering : Numbering} {earlier demands : List Demand}

/-- A numbering goes on over a demand that is met. -/
theorem Numbering.Follows.after
    {demand : Demand} (follows : numbering.Follows earlier)
    (met : demand.need.violation? earlier = none) :
    (numbering.after [demand]).Follows (earlier ++ [demand]) where
  pool := by
    rw [literalsOfDemands_append, List.length_append, ← follows.pool]
    rfl
  binds := by
    rw [letsOfDemands_append]
    exact follows.binds.advance _ _
  fit := follows.fit.snoc met

theorem operatorError?_unary (operator : String) :
    operatorError? operator (unaryOpcode? operator) =
      (Need.unary operator).violation? earlier := by
  unfold unaryOpcode?
  split <;> simp_all [operatorError?, Need.violation?, unaryOperators]

theorem operatorError?_binary
    {operator : String} (notLess : operator ≠ "<") :
    operatorError? operator (binaryOpcode? operator) =
      (Need.binary operator).violation? earlier := by
  unfold binaryOpcode?
  split <;> simp_all [operatorError?, Need.violation?, binaryOperators]

/-- The comparison that has its operands exchanged is known. -/
theorem violation?_less {operator : String} (isLess : operator = "<") :
    (Need.binary operator).violation? earlier = none := by
  simp [Need.violation?, binaryOperators, isLess]

theorem Numbering.Follows.literalError?
    (follows : numbering.Follows earlier) (number : Int64) :
    literalError? numbering = (Need.literal number).violation? earlier := by
  simp only [StackLang.literalError?, follows.pool, Need.violation?]
  split <;> split <;> first | rfl | omega

theorem Numbering.Follows.definitionError?
    (follows : numbering.Follows earlier) (name : String) :
    definitionError? numbering = (Need.define name).violation? earlier := by
  simp only [StackLang.definitionError?, follows.binds.count, Need.violation?]
  split <;> split <;> first | rfl | omega

/-- A name that is defined has a slot that fits the operand. -/
theorem Numbering.Follows.nameError?
    (follows : numbering.Follows earlier) (name : String) :
    nameError? numbering name = (Need.read name).violation? earlier := by
  have resolved := Scope.resolve?_bound (letsOfDemands earlier) name
  rw [← follows.binds] at resolved
  rw [StackLang.nameError?, resolved, Need.violation?]
  cases found : latestSlot? (letsOfDemands earlier) name with
  | none =>
      rw [if_neg (latestSlot?_eq_none_iff.mp found)]
  | some slot =>
      have bound := latestSlot?_lt found
      have defined : name ∈ letsOfDemands earlier := by
        obtain ⟨_, _, split, _⟩ := exists_last_of_latestSlot? found
        simp [split]
      rw [if_pos defined]
      exact operandError?_eq_none_iff.mpr
        (Nat.le_of_lt_succ (Nat.lt_of_lt_of_le bound follows.fit.lets))

/-- Whether a need is met can be told from the numbers that are next. -/
theorem Numbering.Follows.fault?_eq
    (follows : numbering.Follows earlier) (need : Need) :
    need.fault? numbering = need.violation? earlier := by
  cases need with
  | node kind | target opcode destination =>
      rfl
  | unary operator =>
      exact operatorError?_unary operator
  | binary operator =>
      by_cases isLess : operator = "<"
      · rw [violation?_less isLess]
        exact if_pos isLess
      · rw [← operatorError?_binary isLess]
        exact if_neg isLess
  | literal number =>
      exact follows.literalError? number
  | read name =>
      exact follows.nameError? name
  | define name =>
      exact follows.definitionError? name

/-- The first fault of demands can be told from the numbers that are next. -/
theorem Numbering.Follows.firstFault?_eq (follows : numbering.Follows earlier) :
    firstFault? numbering demands = firstViolation? earlier demands := by
  induction demands generalizing numbering earlier with
  | nil =>
      rfl
  | cons demand rest inductionHypothesis =>
      rw [firstFault?, firstViolation?, follows.fault?_eq]
      cases own : demand.need.violation? earlier with
      | none =>
          exact inductionHypothesis (follows.after own)
      | some error =>
          rfl

end Follows

section Programs

variable {program : Program}

/-- Nothing comes before a program. -/
theorem Numbering.follows_nil : Numbering.Follows ⟨0, .empty⟩ [] where
  pool := rfl
  binds := rfl
  fit := .nil

/-- The first fault of a program is that of its first demand that is not met. -/
theorem Program.firstError?_eq :
    firstErrorOfStatements? 0 ⟨0, .empty⟩ program =
      firstViolation? [] program.demands := by
  have fault := @Program.firstError?_eq_firstFault? .empty #[] program
  exact fault.trans Numbering.follows_nil.firstFault?_eq

/-- The operands of `<` are looked at in exchanged order. -/
example :
    firstViolation? []
        (Program.demands [.expr (.binary (.ident "a") "<" (.str "b"))]) =
      some (.unsupportedNode "string literal") :=
  rfl

/-- The demands of a program that is compiled are met. -/
theorem Compiled.met
    {after : Compilation} (compiled : Compiled .empty #[] program after) :
    Met program.demands :=
  firstViolation?_eq_none_iff.mp
    (Program.firstError?_eq.symm.trans compiled.accepted)

/-- A program whose demands are met is one of the supported language. -/
theorem Program.Supported.of_met (met : Met program.demands) :
    program.Supported := by
  have met' {demand : Demand} (member : demand ∈ program.demands) :
      ∃ before, demand.need.violation? before = none := by
    obtain ⟨before, after, split⟩ := List.append_of_mem member
    exact ⟨before, met before demand after split⟩
  have fit := Fit.nil.append (firstViolation?_eq_none_iff.mpr met)
  have lists := lists_of_demandsOfStatements 0 program
  constructor
  case implemented =>
    intro demand member kind shape
    obtain ⟨before, accepted⟩ := met' member
    rw [shape] at accepted
    cases accepted
  case unaryKnown =>
    intro demand member operator shape
    obtain ⟨before, accepted⟩ := met' member
    simpa [shape, Need.violation?] using accepted
  case binaryKnown =>
    intro demand member operator shape
    obtain ⟨before, accepted⟩ := met' member
    simpa [shape, Need.violation?] using accepted
  case namesDefined =>
    intro before offset name after split
    have accepted := met before _ after split
    simpa [Need.violation?, mem_letsOfDemands] using accepted
  case literalsFit =>
    rw [← lists.1]
    exact fit.literals
  case letsFit =>
    rw [← lists.2]
    exact fit.lets
  case targetsFit =>
    intro demand member opcode destination shape
    obtain ⟨before, accepted⟩ := met' member
    simpa [shape, Need.violation?] using accepted

/-- The demands of a program of the supported language are met. -/
theorem Program.Supported.met (supported : program.Supported) :
    Met program.demands := by
  rintro before ⟨offset, need⟩ after split
  have member : ⟨offset, need⟩ ∈ program.demands := by
    simp [split]
  have lists := lists_of_demandsOfStatements 0 program
  have literalsFit := supported.literalsFit
  have letsFit := supported.letsFit
  rw [← lists.1, ← Program.demands, split] at literalsFit
  rw [← lists.2, ← Program.demands, split] at letsFit
  cases need with
  | node kind =>
      exact (supported.implemented _ member kind rfl).elim
  | unary operator =>
      exact if_pos (supported.unaryKnown _ member operator rfl)
  | binary operator =>
      exact if_pos (supported.binaryKnown _ member operator rfl)
  | literal number =>
      refine if_pos ?_
      simp only [literalsOfDemands_append, literalsOfDemands_cons,
        List.length_append, List.length_cons] at literalsFit
      omega
  | read name =>
      exact if_pos
        (mem_letsOfDemands.mpr
          (supported.namesDefined before offset name after split))
  | define name =>
      refine if_pos ?_
      simp only [letsOfDemands_append, letsOfDemands_cons,
        List.length_append, List.length_cons] at letsFit
      omega
  | target opcode destination =>
      exact if_pos (supported.targetsFit _ member opcode destination rfl)

/-- A violation is never a wrong number of operands or a patch that does not
fit. -/
theorem FirstViolation.wellCoded
    {demands : List Demand} {error : CompileError}
    (violation : FirstViolation demands error) :
    (∀ opcode expected got,
        error ≠ .encode (.operandCount opcode expected got)) ∧
      ∀ offset, error ≠ .encode (.badPatch offset) := by
  obtain ⟨before, ⟨offset, need⟩, after, _, _, violated⟩ := violation
  constructor <;> intros <;> rintro rfl <;>
    cases need <;> simp [Need.violation?] at violated

/--
A program is compiled exactly when it is one of the supported language, and
otherwise rejected for its first violation. No program is rejected because its
instructions would be miscounted or patched in the wrong place.
-/
theorem compile_decides_supported (program : Program) :
    ((∃ bytecode, compile program = .ok bytecode) ↔ program.Supported) ∧
      (∀ error,
        compile program = .error error ↔
          FirstViolation program.demands error) ∧
      (∀ opcode expected got,
        compile program ≠
          .error (.encode (.operandCount opcode expected got))) ∧
      ∀ offset, compile program ≠ .error (.encode (.badPatch offset)) := by
  have rejected (error : CompileError) :
      compile program = .error error ↔
        FirstViolation program.demands error := by
    rw [compile_eq_error_iff, Program.firstError?_eq,
      firstViolation?_eq_some_iff]
  refine ⟨?_, rejected, ?_, ?_⟩
  · rw [exists_compile_eq_ok_iff, Program.firstError?_eq,
      firstViolation?_eq_none_iff]
    exact ⟨.of_met, Program.Supported.met⟩
  · intro opcode expected got failed
    exact ((rejected _).mp failed).wellCoded.1 opcode expected got rfl
  · intro offset failed
    exact ((rejected _).mp failed).wellCoded.2 offset rfl

end Programs

end StackLang
