import StackLang.Proofs.Compilation.Demands

namespace StackLang

/-!
# Faults of demands

Whether a demand is met depends on the numbers that are next: on the size of the
pool, and on the scope. Generation meets demands one after the other, up to the
first one that has a fault.
-/

/-- The fault of a need when these numbers are next. -/
def Need.fault? (numbering : Numbering) : Need → Option CompileError
  | .node kind =>
      some (.unsupportedNode kind)
  | .unary operator =>
      operatorError? operator (unaryOpcode? operator)
  | .binary operator =>
      if operator = "<" then
        none
      else
        operatorError? operator (binaryOpcode? operator)
  | .literal _ =>
      literalError? numbering
  | .read name =>
      nameError? numbering name
  | .define _ =>
      definitionError? numbering
  | .target opcode destination =>
      operandError? opcode destination

/-- The numbering after demands were met. -/
def Numbering.after (numbering : Numbering) (met : List Demand) : Numbering :=
  numbering.advance (literalsOfDemands met) (letsOfDemands met)

@[simp] theorem Numbering.after_nil (numbering : Numbering) :
    numbering.after [] = numbering :=
  rfl

/-- Numbers advance over two parts of the demands one after the other. -/
theorem Numbering.after_append
    (numbering : Numbering) (first second : List Demand) :
    numbering.after (first ++ second) =
      (numbering.after first).after second := by
  rw [after, literalsOfDemands_append, letsOfDemands_append, advance_append]
  rfl

/-- The fault of the first demand that is not met. -/
def firstFault? (numbering : Numbering) : List Demand → Option CompileError
  | [] =>
      none
  | demand :: rest =>
      (demand.need.fault? numbering).or
        (firstFault? (numbering.after [demand]) rest)

/-- The demands that are met before the first one that is not. -/
def metDemands (numbering : Numbering) : List Demand → List Demand
  | [] =>
      []
  | demand :: rest =>
      match demand.need.fault? numbering with
      | none =>
          demand :: metDemands (numbering.after [demand]) rest
      | some _ =>
          []

section Scan

variable {numbering : Numbering} {met demands : List Demand} {demand : Demand}

/-- Demands are looked through in their order. -/
theorem firstFault?_append (first second : List Demand) :
    firstFault? numbering (first ++ second) =
      (firstFault? numbering first).or
        (firstFault? (numbering.after first) second) := by
  induction first generalizing numbering with
  | nil =>
      rfl
  | cons demand rest inductionHypothesis =>
      rw [← List.singleton_append, Numbering.after_append,
        List.singleton_append, List.cons_append, firstFault?, firstFault?,
        inductionHypothesis, Option.or_assoc]

@[simp] theorem firstFault?_single :
    firstFault? numbering [demand] = demand.need.fault? numbering :=
  Option.or_none

/-- The first fault is the one that comes behind demands that are met. -/
theorem firstFault?_of_fault
    {error : CompileError} (accepted : firstFault? numbering met = none)
    (fault : demand.need.fault? (numbering.after met) = some error)
    (rest : List Demand) :
    firstFault? numbering (met ++ demand :: rest) = some error := by
  rw [firstFault?_append, accepted, Option.none_or, firstFault?, fault]
  rfl

/-- The demands that are met come before all others. -/
theorem exists_rest_of_metDemands
    (numbering : Numbering) (demands : List Demand) :
    ∃ rest, metDemands numbering demands ++ rest = demands := by
  induction demands generalizing numbering with
  | nil =>
      exact ⟨[], rfl⟩
  | cons demand rest inductionHypothesis =>
      rw [metDemands]
      split
      case h_1 =>
        obtain ⟨others, split⟩ :=
          inductionHypothesis (numbering.after [demand])
        exact ⟨others, congrArg (demand :: ·) split⟩
      case h_2 =>
        exact ⟨demand :: rest, rfl⟩

/-- Demands without a fault are all met. -/
theorem metDemands_of_accepted
    (accepted : firstFault? numbering demands = none) :
    metDemands numbering demands = demands := by
  induction demands generalizing numbering with
  | nil =>
      rfl
  | cons demand rest inductionHypothesis =>
      rw [firstFault?, Option.or_eq_none_iff] at accepted
      rw [metDemands, accepted.1]
      exact congrArg (demand :: ·) (inductionHypothesis accepted.2)

/-- Of demands with a fault, those before the first fault are met. -/
theorem metDemands_of_fault
    {error : CompileError} {rest : List Demand}
    (accepted : firstFault? numbering met = none)
    (fault : demand.need.fault? (numbering.after met) = some error) :
    metDemands numbering (met ++ demand :: rest) = met := by
  induction met generalizing numbering with
  | nil =>
      rw [Numbering.after_nil] at fault
      rw [List.nil_append, metDemands, fault]
  | cons first others inductionHypothesis =>
      rw [firstFault?, Option.or_eq_none_iff] at accepted
      rw [← List.singleton_append, Numbering.after_append] at fault
      rw [List.cons_append, metDemands, accepted.1]
      exact congrArg (first :: ·) (inductionHypothesis accepted.2 fault)

end Scan

end StackLang
