import StackLang.Proofs.Compilation.Accounts
import StackLang.Proofs.Compilation.Names

namespace StackLang

/-!
# Programs added one after another

A compilation takes program after program, and goes on with what is left where
one of them is rejected. Nothing that was laid down before is touched any more,
and whatever is rejected, the constants and the slots stay numbered without
gaps.
-/

namespace Compilation

/-- What is left of adding a program, whether it is compiled or rejected. -/
def add (before : Compilation) (program : Program) : Compilation :=
  match program.generate before with
  | .ok _ after | .error _ after =>
      after

/-- What is left of adding programs one after another. -/
def addAll (before : Compilation) (programs : List Program) : Compilation :=
  programs.foldl add before

/-- The numbers that a compilation goes on with. -/
def numbering (compilation : Compilation) : Numbering where
  pool := compilation.constants.size
  scope := compilation.scope

/-- The demands of a program that is added to a compilation. -/
def demands (before : Compilation) (program : Program) : List Demand :=
  demandsOfStatements before.assembler.offset program

/-- The demands that are met when a program is added: all, or those before the
first one that has a fault. -/
def met (before : Compilation) (program : Program) : List Demand :=
  metDemands before.numbering (before.demands program)

/-- The demands that are met when programs are added one after another. -/
def metByAll (before : Compilation) : List Program → List Demand
  | [] =>
      []
  | program :: rest =>
      before.met program ++ (before.add program).metByAll rest

/-- The names that the met demands of a program define are among its own. -/
theorem mem_lets_of_met
    {before : Compilation} {program : Program} {name : String}
    (defined : name ∈ letsOfDemands (before.met program)) :
    name ∈ letsOfStatements program := by
  obtain ⟨rest, split⟩ :=
    exists_rest_of_metDemands before.numbering (before.demands program)
  rw [← (lists_of_demandsOfStatements before.assembler.offset program).2]
  change name ∈ letsOfDemands (before.demands program)
  rw [← split, letsOfDemands_append]
  exact List.mem_append_left _ defined

/-- A program that is added is compiled if its demands are met, and otherwise
rejected for the fault of the first one that is not. -/
def Answers (before : Compilation) (program : Program) : Prop :=
  match program.generate before with
  | .ok _ _ =>
      before.met program = before.demands program
  | .error error _ =>
      ∃ demand rest,
        before.demands program = before.met program ++ demand :: rest ∧
          demand.need.fault?
              (before.numbering.after (before.met program)) =
            some error

namespace Represents

variable {before : Compilation} {draft : Draft}

theorem numbering_eq (represents : before.Represents draft) :
    before.numbering = draft.numbering := by
  rw [numbering, represents.constants, represents.scope]
  rfl

/-- A program that is added answers, and adds the instructions that serve the
demands that it meets. -/
theorem add
    (represents : before.Represents draft) (program : Program) :
    before.Answers program ∧
      ∃ added, draft.Grown (before.met program) added (before.add program) := by
  have sameDemands :
      demandsOfStatements draft.offset program = before.demands program :=
    congrArg (demandsOfStatements · program) represents.tracks.offset_eq.symm
  have accounted :
      draft.Accounts (demandsOfStatements draft.offset program)
        (byteSizeOfStatements program) (program.generate before) :=
    generateStatements_accounts program before draft represents trivial
  rw [sameDemands] at accounted
  rw [Answers, Compilation.add]
  cases shape : program.generate before with
  | ok _ after =>
      rw [shape] at accounted
      obtain ⟨added, _, grown⟩ := accounted
      have allMet : before.met program = before.demands program := by
        rw [met, represents.numbering_eq]
        exact metDemands_of_accepted grown.serves.accepted
      exact ⟨allMet, added, allMet ▸ grown⟩
  | error error after =>
      rw [shape] at accounted
      obtain ⟨met, demand, rest, added, split, fault, grown⟩ := accounted
      have isMet : before.met program = met := by
        rw [Compilation.met, represents.numbering_eq, split]
        exact metDemands_of_fault grown.serves.accepted fault
      rw [← isMet] at split fault grown
      rw [← represents.numbering_eq] at fault
      exact ⟨⟨demand, rest, split, fault⟩, added, grown⟩

/-- Programs that are added one after another add the instructions that serve
the demands that they meet. -/
theorem addAll
    (represents : before.Represents draft) (programs : List Program) :
    ∃ added,
      draft.Grown (before.metByAll programs) added
        (before.addAll programs) := by
  induction programs generalizing before draft with
  | nil =>
      exact ⟨[], .refl represents⟩
  | cons program rest inductionHypothesis =>
      obtain ⟨_, added, grown⟩ := represents.add program
      obtain ⟨more, moreGrown⟩ := inductionHypothesis grown.represents
      exact ⟨added ++ more, grown.trans moreGrown⟩

end Represents

/-- A compilation continues another one that a program was added to: what was
there is still there, in front of what is new. -/
structure Continues
    (before : Compilation) (program : Program) (after : Compilation) :
    Prop where
  code :
    before.bytecode.code.bytes.toList <+: after.bytecode.code.bytes.toList
  constants : before.constants.toList <+: after.constants.toList
  definitions : before.scope.count ≤ after.scope.count
  names :
    ∀ name, name ∉ letsOfStatements program →
      after.scope.resolve? name = before.scope.resolve? name

/--
The constants and slots of some code are numbered without gaps from what was
there before.

In the order of the listing, the code names each constant of its own once, and
writes each slot of its own once. The constants are the literals of the demands
that were met, and the slots those of the names that these define.
-/
structure NumbersOn
    (compilation : Compilation) (scope : Scope) (constants : Array Value)
    (met : List Demand) : Prop where
  complete : compilation.bytecode.code.listing.fault = none
  constantOperands :
    operandsOf .constant
        (compilation.bytecode.code.listing.lines.toList.map Line.instr) =
      List.range' constants.size
        (compilation.constants.size - constants.size)
  constants :
    compilation.constants =
      constants ++ ((literalsOfDemands met).map Value.int).toArray
  slotOperands :
    operandsOf .setGlobal
        (compilation.bytecode.code.listing.lines.toList.map Line.instr) =
      List.range' scope.count (compilation.scope.count - scope.count)
  scope : compilation.scope = scope.defineAll (letsOfDemands met)

end Compilation

/-- Adding a program continues what programs before it have left, whether it is
compiled or rejected, and they were. -/
theorem continues_add
    (scope : Scope) (constants : Array Value) (programs : List Program)
    (program : Program) :
    let before := (Compilation.resume scope constants).addAll programs
    before.Continues program (before.add program) := by
  intro before
  obtain ⟨_, _, represents⟩ :=
    (Compilation.resume_represents scope constants).addAll programs
  obtain ⟨_, added, _, representsAfter⟩ := represents.add program
  have scopeAfter :
      (before.add program).scope =
        before.scope.defineAll (letsOfDemands (before.met program)) := by
    rw [representsAfter.scope, represents.scope]
    rfl
  constructor
  case code =>
    have bytesBefore := represents.tracks.consists.bytes
    have bytesAfter := representsAfter.tracks.consists.bytes
    rw [Draft.extend, encodeAll_append, ← bytesBefore] at bytesAfter
    exact ⟨_, bytesAfter.symm⟩
  case constants =>
    have constantsAfter := representsAfter.constants
    rw [Draft.extend, ← represents.constants] at constantsAfter
    rw [constantsAfter, Array.toList_append]
    exact List.prefix_append _ _
  case definitions =>
    rw [scopeAfter, Scope.count_defineAll]
    exact Nat.le_add_right _ _
  case names =>
    intro name notDefined
    have notMet : name ∉ letsOfDemands (before.met program) :=
      fun defined => notDefined (Compilation.mem_lets_of_met defined)
    rw [scopeAfter, Scope.resolve?_defineAll,
      latestSlot?_eq_none_iff.mpr notMet]

/-- Whatever programs are added, and compiled or rejected, constants and slots
are numbered without gaps, and the next program is answered. -/
theorem numbersOn_addAll
    (scope : Scope) (constants : Array Value) (programs : List Program) :
    let start := Compilation.resume scope constants
    let after := start.addAll programs
    after.NumbersOn scope constants (start.metByAll programs) ∧
      ∀ program, after.Answers program := by
  intro start after
  have represents : start.Represents ⟨[], constants, scope⟩ :=
    Compilation.resume_represents scope constants
  obtain ⟨added, serves, representsAfter⟩ := represents.addAll programs
  have consists : after.bytecode.code.Consists added :=
    representsAfter.tracks.consists
  obtain ⟨complete, listed⟩ := Code.consists_iff_listing.mp consists
  have constantsAfter :
      after.constants =
        constants ++
          ((literalsOfDemands (start.metByAll programs)).map
            Value.int).toArray :=
    representsAfter.constants
  have scopeAfter :
      after.scope =
        scope.defineAll (letsOfDemands (start.metByAll programs)) :=
    representsAfter.scope
  refine ⟨⟨complete, ?_, constantsAfter, ?_, scopeAfter⟩, fun program =>
    (representsAfter.add program).1⟩
  · rw [listed, serves.constants, constantsAfter]
    simp [Draft.numbering]
  · rw [listed, serves.slots, scopeAfter]
    simp [Draft.numbering]

/-- The operands of `<` are pooled from the right, and a program that is rejected
leaves the literals before its fault. -/
example :
    literalsOfDemands
        ((Compilation.resume .empty #[]).metByAll
          [[.expr (.binary (.int 1) "<" (.int 2))],
            [.define "a" (.binary (.int 3) "+" (.str "b"))]]) =
      [2, 1, 3] := by
  rfl

end StackLang
