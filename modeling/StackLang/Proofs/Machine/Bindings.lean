import StackLang.Proofs.Compilation.Acceptance
import StackLang.Proofs.Compilation.Variables
import StackLang.Proofs.Machine.Forward
import StackLang.Proofs.Machine.Writes

namespace StackLang

/-!
# What references find

A name that is read denotes the latest definition of the name in the order of
the traversal, and the slot is that of this definition. Which definitions a run
executes is another matter: those of an arm that is not chosen are skipped. A
reference finds the value of its definition if the definition was executed. If
it was skipped, the slot was never written: it has null if a later slot was
written, and otherwise the run fails.
-/

/-- Two places of one list: one comes before the other, or they are the same. -/
theorem split_trichotomy
    {α : Type} {first second : α} {before after before' after' : List α}
    (same : before ++ first :: after = before' ++ second :: after') :
    (∃ between, before' = before ++ first :: between) ∨
      (before = before' ∧ first = second) ∨
      ∃ between, before = before' ++ second :: between := by
  rcases List.append_eq_append_iff.mp same with
    ⟨between, rfl, rest⟩ | ⟨between, rfl, rest⟩
  · cases between with
    | nil =>
        cases rest
        exact .inr (.inl ⟨(List.append_nil _).symm, rfl⟩)
    | cons head tail =>
        cases rest
        exact .inl ⟨tail, rfl⟩
  · cases between with
    | nil =>
        cases rest
        exact .inr (.inl ⟨List.append_nil _, rfl⟩)
    | cons head tail =>
        cases rest
        exact .inr (.inr ⟨tail, rfl⟩)

/-- A name that is defined has a last definition. -/
theorem exists_last_definition
    {demands : List Demand} {name : String}
    (defined : name ∈ letsOfDemands demands) :
    ∃ before site between,
      demands = before ++ ⟨site, .define name⟩ :: between ∧
        name ∉ letsOfDemands between := by
  obtain ⟨earlier, later, names, absent⟩ := exists_last_of_mem defined
  obtain ⟨before, rest, rfl, _, restNames⟩ :=
    List.filterMap_eq_append_iff.mp names
  obtain ⟨others, ⟨site, need⟩, between, rfl, _, isDefined, rfl⟩ :=
    List.filterMap_eq_cons_iff.mp restNames
  cases Demand.defined?_eq_some_iff.mp isDefined
  exact ⟨before ++ others, site, between, (List.append_assoc ..).symm, absent⟩

/-- A name that is read at an offset denotes the definition at a site, which
has a slot: it is the latest definition of the name before the read. -/
def Program.Denotes
    (program : Program) (name : String) (offset site slot : Nat) : Prop :=
  ∃ before between after,
    program.demands =
        before ++ ⟨site, .define name⟩ ::
          (between ++ ⟨offset, .read name⟩ :: after) ∧
      name ∉ letsOfDemands between ∧ slot = (letsOfDemands before).length

namespace Bytecode

/-- The next step pushes a value, if there is room for it on the stack. -/
def Yields
    (bytecode : Bytecode) (offset : Nat) (machine : Machine) (value : Value) :
    Prop :=
  bytecode.step offset machine =
    if machine.depth < machine.capacity then
      .running (offset + wideSize)
        { machine with stack := machine.stack.push value }
    else
      .failed ⟨offset, .stackOverflow⟩ machine

/-- What a run finds where a name is read that denotes the definition at a site,
after the writes that it has made. -/
inductive Finds
    (bytecode : Bytecode) (program : Program) (name : String)
    (offset site slot : Nat) (writes : List Write) (machine : Machine) :
    Prop where
  /-- The definition was executed, and none of the name after it. -/
  | value
      (earlier later : List Write) (value : Value)
      (executed : writes = earlier ++ ⟨site, slot, value⟩ :: later)
      (latest :
        ∀ write ∈ later, ⟨write.offset, .define name⟩ ∉ program.demands)
      (yields : bytecode.Yields offset machine value)
  /-- The definition was skipped, but a later slot was written. -/
  | null
      (skipped : ∀ write ∈ writes, write.offset ≠ site)
      (filled : ∃ write ∈ writes, slot < write.slot)
      (yields : bytecode.Yields offset machine .null)
  /-- The definition was skipped, and no later slot was written. -/
  | undefined
      (skipped : ∀ write ∈ writes, write.offset ≠ site)
      (unfilled : ∀ write ∈ writes, write.slot < slot)
      (fails :
        bytecode.step offset machine =
          .failed ⟨offset, .undefinedGlobal slot⟩ machine)

variable {bytecode : Bytecode} {offset slot : Nat} {machine : Machine}

/-- A read pushes the value of its slot, and fails if there is none. -/
theorem step_of_read
    (machine : Machine)
    (fetched :
      bytecode.code.fetch offset =
        .instr ⟨.getGlobal, [slot]⟩ (offset + wideSize)) :
    match machine.globals[slot]? with
    | some value =>
        bytecode.Yields offset machine value
    | none =>
        bytecode.step offset machine =
          .failed ⟨offset, .undefinedGlobal slot⟩ machine := by
  simp only [Yields, step, fetched, Instr.execute, Instr.operand,
    List.headD_cons, MachineM.getGlobal, MachineM.push, bind_assoc, bind_get,
    Machine.depth]
  cases machine.globals[slot]? with
  | none =>
      rfl
  | some value =>
      by_cases room : machine.stack.size < machine.capacity
      · simp only [pure_bind, bind_get, if_pos room]
        exact (if_pos room).symm
      · simp only [pure_bind, bind_get, if_neg room]
        exact (if_neg room).symm

/-- A well-formed run writes at increasing offsets, before the one that it has
come to. -/
theorem WellFormed.writes_ascend
    (wellFormed : bytecode.WellFormed) {fuel : Nat} {reached : Machine}
    (running : bytecode.run fuel machine = .running offset reached) :
    (bytecode.writes fuel machine).Pairwise (·.offset < ·.offset) ∧
      ∀ write ∈ bytecode.writes fuel machine, write.offset < offset := by
  have ascends :=
    (wellFormed.stagesFrom_forward (fuel + 1) machine
      wellFormed.expects_start).1
  rw [stagesFrom_succ_of_running running, List.pairwise_append] at ascends
  obtain ⟨ordered, _, before⟩ := ascends
  constructor
  · refine List.pairwise_filterMap.mpr (ordered.imp ?_)
    intro first second less write written later laterWritten
    rw [(exists_instr_of_write? written).1,
      (exists_instr_of_write? laterWritten).1]
    exact less
  · intro write member
    obtain ⟨stage, stageMember, written⟩ := List.mem_filterMap.mp member
    rw [(exists_instr_of_write? written).1]
    exact before stage stageMember _ List.mem_cons_self

end Bytecode

section Programs

variable {program : Program} {after : Compilation}
variable {name : String} {offset site slot : Nat}

section Places

variable (compiled : Compiled .empty #[] program after)

include compiled

/-- What is demanded earlier stands further up. -/
theorem Compiled.offset_lt
    {earlier later : List Demand} {first second : Demand}
    (split : program.demands = earlier ++ later)
    (firstMember : first ∈ earlier) (secondMember : second ∈ later)
    (firstIs : first.isVariable = true)
    (secondIs : second.isVariable = true) :
    first.offset < second.offset := by
  have ordered := List.pairwise_filter.mp compiled.accesses_ascend
  rw [split, List.pairwise_append] at ordered
  exact ordered.2.2 first firstMember second secondMember firstIs secondIs

/-- The instruction of a read or a write that is demanded is fetched. -/
theorem Compiled.fetch_variable
    {line : Line} (member : line ∈ variableLines [] program.demands) :
    after.bytecode.code.fetch line.offset =
      .instr line.instr (line.offset + line.instr.size) := by
  rw [← compiled.accesses_eq, List.mem_filter] at member
  exact (compiled.wellFormed.fetch_line
    (Array.mem_toList_iff.mp member.1)).1

/-- What a run finds at a stage, if it reads or writes, is demanded. -/
theorem Compiled.mem_variableLines
    {fuel next : Nat} {machine : Machine} {stage : Stage} {instr : Instr}
    (member : stage ∈ after.bytecode.stages fuel machine)
    (fetched : after.bytecode.code.fetch stage.offset = .instr instr next)
    (isVariable : instr.opcode.isVariable = true) :
    ⟨stage.offset, instr⟩ ∈ variableLines [] program.demands := by
  have wellFormed := compiled.wellFormed
  have expects :=
    ((wellFormed.stagesFrom_forward fuel machine
      wellFormed.expects_start).2 stage member).2
  rcases expects with ⟨line, lineMember, isAt⟩ | past
  · have fetchedLine := (wellFormed.fetch_line lineMember).1
    rw [isAt, fetched] at fetchedLine
    cases fetchedLine
    rw [← isAt, ← compiled.accesses_eq, List.mem_filter]
    exact ⟨Array.mem_toList_iff.mpr lineMember, isVariable⟩
  · rw [past] at fetched
    cases fetched

/-- A name that is read denotes a definition. -/
theorem Compiled.exists_denotes
    (member : ⟨offset, .read name⟩ ∈ program.demands) :
    ∃ site slot, program.Denotes name offset site slot := by
  obtain ⟨before, behind, split⟩ := List.append_of_mem member
  have defined : name ∈ letsOfDemands before := by
    have met := compiled.met before _ behind split
    simpa [Need.violation?] using met
  obtain ⟨earlier, site, between, rfl, absent⟩ :=
    exists_last_definition defined
  refine ⟨site, _, earlier, between, behind, ?_, absent, rfl⟩
  rw [split, List.append_assoc, List.cons_append]

/-- Where a name is read, the slot of its definition is read. -/
theorem Compiled.fetch_read
    (denotes : program.Denotes name offset site slot) :
    after.bytecode.code.fetch offset =
      .instr ⟨.getGlobal, [slot]⟩ (offset + wideSize) := by
  obtain ⟨before, between, behind, split, absent, rfl⟩ := denotes
  rw [← List.cons_append, ← List.append_assoc] at split
  have fetched :=
    compiled.fetch_variable (read_mem_variableLines [] split)
  have found :
      latestSlot? (letsOfDemands (before ++ ⟨site, .define name⟩ :: between))
          name =
        some (letsOfDemands before).length := by
    rw [letsOfDemands_append, letsOfDemands_cons]
    exact latestSlot?_append_cons absent
  rw [List.nil_append, found] at fetched
  exact fetched

/-- A write is made where a name is defined, to the slot that is counted by the
definitions before it. -/
theorem Compiled.exists_definition_of_write
    {fuel : Nat} {machine : Machine} {write : Write}
    (member : write ∈ after.bytecode.writes fuel machine) :
    ∃ before name behind,
      program.demands = before ++ ⟨write.offset, .define name⟩ :: behind ∧
        write.slot = (letsOfDemands before).length := by
  obtain ⟨stage, stageMember, written⟩ := List.mem_filterMap.mp member
  obtain ⟨isAt, instr, next, fetched, writes, isSlot⟩ :=
    Bytecode.exists_instr_of_write? written
  have isVariable : instr.opcode.isVariable = true := by
    rw [writes]
    rfl
  rcases exists_demand_of_variableLine
      (compiled.mem_variableLines stageMember fetched isVariable) with
    ⟨reads, _⟩ | ⟨_, name, defined⟩
  · rw [writes] at reads
    cases reads
  · obtain ⟨before, behind, split⟩ := List.append_of_mem defined
    have fetchedWrite :=
      compiled.fetch_variable (write_mem_variableLines [] split)
    rw [fetched] at fetchedWrite
    rw [(Fetch.instr.inj fetchedWrite).1] at isSlot
    refine ⟨before, name, behind, ?_, isSlot⟩
    rw [isAt, split]

/-- Writes stand to a definition as their slots do to its slot. -/
theorem Compiled.compare_write
    {fuel : Nat} {machine : Machine} {write : Write}
    (denotes : program.Denotes name offset site slot)
    (member : write ∈ after.bytecode.writes fuel machine) :
    (write.offset < site ∧ write.slot < slot) ∨
      (write.offset = site ∧ write.slot = slot) ∨
      (site < write.offset ∧ slot < write.slot) := by
  obtain ⟨before, between, behind, split, _, rfl⟩ := denotes
  obtain ⟨beforeWrite, written, behindWrite, splitWrite, slotEq⟩ :=
    compiled.exists_definition_of_write member
  rw [slotEq]
  rcases split_trichotomy (splitWrite.symm.trans split) with
    ⟨others, rfl⟩ | ⟨rfl, same⟩ | ⟨others, rfl⟩
  · refine .inl ⟨?_, ?_⟩
    · exact compiled.offset_lt split
        (List.mem_append_right _ List.mem_cons_self) List.mem_cons_self rfl rfl
    · simp
  · cases same
    exact .inr (.inl ⟨rfl, rfl⟩)
  · refine .inr (.inr ⟨?_, ?_⟩)
    · exact compiled.offset_lt splitWrite
        (List.mem_append_right _ List.mem_cons_self) List.mem_cons_self rfl rfl
    · simp

/-- Between a definition and a read that denotes it, the name is not defined
again. -/
theorem Compiled.not_defined_between
    {place : Nat} (denotes : program.Denotes name offset site slot)
    (behindSite : site < place) (beforeRead : place < offset) :
    ⟨place, .define name⟩ ∉ program.demands := by
  intro member
  obtain ⟨before, between, behind, split, absent, _⟩ := denotes
  have splitRead :
      program.demands =
        (before ++ ⟨site, .define name⟩ :: between) ++
          ⟨offset, .read name⟩ :: behind := by
    rw [split, List.append_assoc, List.cons_append]
  rw [splitRead] at member
  rcases List.mem_append.mp member with inFront | inRest
  · rcases List.mem_append.mp inFront with inBefore | inBetween
    · have further := compiled.offset_lt split inBefore List.mem_cons_self rfl rfl
      exact Nat.lt_asymm behindSite further
    · rcases List.mem_cons.mp inBetween with atSite | inside
      · cases atSite
        exact Nat.lt_irrefl _ behindSite
      · exact absent (mem_letsOfDemands.mpr ⟨_, inside, rfl⟩)
  · rcases List.mem_cons.mp inRest with atRead | inBehind
    · cases atRead
    · rw [List.append_cons] at splitRead
      have further :=
        compiled.offset_lt splitRead
          (List.mem_append_right _ List.mem_cons_self) inBehind rfl rfl
      exact Nat.lt_asymm beforeRead further

/-- What a run finds where a name is read is the value of its definition, or
null or a failure if this was skipped. -/
theorem Compiled.finds
    {fuel capacity : Nat} {machine : Machine}
    (running :
      after.bytecode.run fuel (.ofCapacity capacity) =
        .running offset machine)
    (denotes : program.Denotes name offset site slot) :
    after.bytecode.Finds program name offset site slot
      (after.bytecode.writes fuel (.ofCapacity capacity)) machine := by
  let writes := after.bytecode.writes fuel (.ofCapacity capacity)
  have reads :=
    Bytecode.step_of_read machine (compiled.fetch_read denotes)
  have compare (write : Write) (member : write ∈ writes) :=
    compiled.compare_write denotes member
  have globals : machine.globals = applyWrites #[] writes := by
    have left :=
      after.bytecode.globals_runFrom 0 (.ofCapacity capacity) fuel
    rw [← Bytecode.run, running] at left
    exact left
  obtain ⟨ascends, bounded⟩ := compiled.wellFormed.writes_ascend running
  by_cases executed : ∃ write ∈ writes, write.offset = site
  case pos =>
    obtain ⟨⟨_, slot', value⟩, member, rfl⟩ := executed
    obtain ⟨earlier, later, split⟩ := List.append_of_mem member
    have sameSlot : slot' = slot := by
      rcases compare _ member with ⟨less, _⟩ | ⟨_, same⟩ | ⟨less, _⟩
      · exact (Nat.lt_irrefl _ less).elim
      · exact same
      · exact (Nat.lt_irrefl _ less).elim
    subst sameSlot
    have ordered : writes.Pairwise (·.offset < ·.offset) := ascends
    rw [split, List.pairwise_append, List.pairwise_cons] at ordered
    have behind := ordered.2.1.1
    have inWrites (write : Write) (inLater : write ∈ later) :
        write ∈ writes := by
      rw [split]
      exact List.mem_append_right _ (List.mem_cons_of_mem _ inLater)
    refine .value earlier later value split ?latest ?yields
    case latest =>
      intro write inLater
      exact compiled.not_defined_between denotes (behind write inLater)
        (bounded write (inWrites write inLater))
    case yields =>
      have last (write : Write) (inLater : write ∈ later) :
          write.slot ≠ slot' := by
        rcases compare write (inWrites write inLater) with
          ⟨less, _⟩ | ⟨same, _⟩ | ⟨_, more⟩
        · exact (Nat.lt_asymm (behind write inLater) less).elim
        · exact (Nat.ne_of_gt (behind write inLater) same).elim
        · exact Nat.ne_of_gt more
      have found : machine.globals[slot']? = some value := by
        rw [globals, split]
        exact getElem?_applyWrites_of_last last
      rwa [found] at reads
  case neg =>
    have skipped (write : Write) (member : write ∈ writes) :
        write.offset ≠ site :=
      fun same => executed ⟨write, member, same⟩
    have unwritten (write : Write) (member : write ∈ writes) :
        write.slot ≠ slot := by
      rcases compare write member with ⟨_, less⟩ | ⟨same, _⟩ | ⟨_, more⟩
      · exact Nat.ne_of_lt less
      · exact (skipped write member same).elim
      · exact Nat.ne_of_gt more
    rw [globals, getElem?_applyWrites_of_unwritten unwritten] at reads
    by_cases filled : ∃ write ∈ writes, slot < write.slot
    case pos =>
      rw [if_pos filled] at reads
      exact .null skipped filled reads
    case neg =>
      rw [if_neg filled] at reads
      refine .undefined skipped (fun write member => ?_) reads
      rcases Nat.lt_or_gt_of_ne (unwritten write member) with less | more
      · exact less
      · exact (filled ⟨write, member, more⟩).elim

/-- A run fails for a slot that was never written only where a name is read. -/
theorem Compiled.exists_read_of_undefined
    {fuel target : Nat} {machine reached left : Machine}
    (running :
      after.bytecode.run fuel machine = .running target reached)
    (stepped :
      after.bytecode.step target reached =
        .failed ⟨offset, .undefinedGlobal slot⟩ left) :
    target = offset ∧ ∃ name, ⟨offset, .read name⟩ ∈ program.demands := by
  obtain ⟨rfl, cause⟩ := Bytecode.exists_of_step_failed stepped
  refine ⟨rfl, ?_⟩
  rcases cause with ⟨source, isDecode⟩ | ⟨instr, next, fetched, executed⟩
  · cases isDecode
  · have reads : instr.opcode = .getGlobal := by
      refine Decidable.byContradiction fun noRead => ?_
      exact instr.execute_neverUndefined noRead _ _ _ _ _ executed
    have isVariable : instr.opcode.isVariable = true := by
      rw [reads]
      rfl
    have stageMember :
        ⟨offset, reached⟩ ∈ after.bytecode.stages (fuel + 1) machine :=
      Bytecode.mem_stagesFrom_iff.mpr ⟨fuel, Nat.lt_succ_self fuel, running⟩
    rcases exists_demand_of_variableLine
        (compiled.mem_variableLines stageMember fetched isVariable) with
      ⟨_, read⟩ | ⟨writes, _⟩
    · exact read
    · rw [reads] at writes
      cases writes

end Places

/-- A value that is pushed is no missing slot. -/
theorem Bytecode.Yields.not_undefined
    {bytecode : Bytecode} {machine reached : Machine} {value : Value}
    (yields : bytecode.Yields offset machine value) :
    bytecode.step offset machine ≠
      .failed ⟨offset, .undefinedGlobal slot⟩ reached := by
  rw [yields]
  split <;> nofun

/--
Where a run comes to a name, it finds the value of the definition that the name
denotes, and no definition of the name was executed after this one. If the
definition was skipped, it finds null if a later slot was written, and fails
otherwise; runs fail for slots that were never written in no other way. All that
runs write are definitions.
-/
theorem finds_of_compile
    {program : Program} {bytecode : Bytecode}
    (succeeded : compile program = .ok bytecode) (capacity fuel : Nat) :
    (∀ name offset machine,
        bytecode.run fuel (.ofCapacity capacity) = .running offset machine →
        ⟨offset, .read name⟩ ∈ program.demands →
          ∃ site slot,
            program.Denotes name offset site slot ∧
              bytecode.Finds program name offset site slot
                (bytecode.writes fuel (.ofCapacity capacity)) machine) ∧
      (∀ offset slot machine,
        bytecode.run fuel (.ofCapacity capacity) =
            .failed ⟨offset, .undefinedGlobal slot⟩ machine →
          ∃ name site steps reached,
            bytecode.run steps (.ofCapacity capacity) =
                .running offset reached ∧
              program.Denotes name offset site slot ∧
              ∀ write ∈ bytecode.writes steps (.ofCapacity capacity),
                write.offset ≠ site ∧ write.slot < slot) ∧
      ∀ write ∈ bytecode.writes fuel (.ofCapacity capacity),
        ∃ name, ⟨write.offset, .define name⟩ ∈ program.demands := by
  obtain ⟨after, rfl, compiled⟩ := compiled_of_compile succeeded
  refine ⟨?finds, ?fails, ?writes⟩
  case finds =>
    intro name offset machine running member
    obtain ⟨site, slot, denotes⟩ := compiled.exists_denotes member
    exact ⟨site, slot, denotes, compiled.finds running denotes⟩
  case fails =>
    intro offset slot machine failed
    obtain ⟨steps, target, reached, _, running, stepped⟩ :=
      Bytecode.exists_stage_of_failed failed
    obtain ⟨rfl, name, member⟩ :=
      compiled.exists_read_of_undefined running stepped
    obtain ⟨site, slot', denotes⟩ := compiled.exists_denotes member
    cases compiled.finds running denotes with
    | value _ _ _ _ _ yields | null _ _ yields =>
        exact (yields.not_undefined stepped).elim
    | undefined skipped unfilled fails =>
        rw [stepped] at fails
        cases fails
        exact ⟨name, site, steps, _, running, denotes,
          fun write written =>
            ⟨skipped write written, unfilled write written⟩⟩
  case writes =>
    intro write member
    obtain ⟨before, name, behind, split, _⟩ :=
      compiled.exists_definition_of_write member
    refine ⟨name, ?_⟩
    rw [split]
    exact List.mem_append_right _ List.mem_cons_self

end Programs

/-- A name that is defined, defined again in an arm that is not chosen, and then
read. -/
def skippedDefinition : Program :=
  [.define "x" (.int 1),
    .expr (.ifThen (.bool false) [.define "x" (.int 2)]),
    .expr (.ident "x")]

/-- The read in the last statement is that of the second slot. -/
theorem compile_skippedDefinition :
    compile skippedDefinition =
      .ok
        ⟨⟨#[0, 0, 0, 17, 0, 0, 7, 13, 0, 20, 0, 0, 1, 17, 0, 1, 15, 14, 0, 21,
          15, 2, 16, 0, 1, 2]⟩,
          #[.int 1, .int 2]⟩ := by
  have accepted :
      firstErrorOfStatements? 0 ⟨0, .empty⟩ skippedDefinition = none :=
    Program.firstError?_eq.trans rfl
  rw [compile_eq_of_accepted accepted]
  simp [skippedDefinition, planStatements, Stmt.plan, Expr.plan, planArm,
    Stmt.planTail, allEmpty, Expr.advance, Stmt.advance, Numbering.advance,
    Expr.lets, Expr.literals, Stmt.lets, Stmt.literals, letsOfStatements,
    literalsOfStatements, Scope.defineAll, Scope.resolve?_define, Plan.layout,
    Plan.size]
  rfl

/-- What a run finds that has skipped the definition. -/
theorem finds_after_skipped_definition :
    ∃ bytecode machine,
      compile skippedDefinition = .ok bytecode ∧
        bytecode.run 6 (.ofCapacity 1) = .running 22 machine ∧
        ∃ site slot,
          Program.Denotes skippedDefinition "x" 22 site slot ∧
            bytecode.Finds skippedDefinition "x" 22 site slot
              (bytecode.writes 6 (.ofCapacity 1)) machine :=
  ⟨_, _, compile_skippedDefinition, rfl,
    (finds_of_compile compile_skippedDefinition 1 6).1 _ _ _ rfl (by decide)⟩

/-- The value of the definition that was executed last is not found: the run
fails, because the slot of the skipped definition was never written. -/
theorem latest_value_not_found :
    ∃ bytecode machine,
      compile skippedDefinition = .ok bytecode ∧
        bytecode.run 6 .initial = .running 22 machine ∧
        ⟨22, .read "x"⟩ ∈ skippedDefinition.demands ∧
        ⟨3, .define "x"⟩ ∈ skippedDefinition.demands ∧
        bytecode.writes 6 .initial = [⟨3, 0, .int 1⟩] ∧
        ¬bytecode.Yields 22 machine (.int 1) ∧
        bytecode.run 7 .initial =
          .failed ⟨22, .undefinedGlobal 1⟩ machine := by
  refine ⟨_, ⟨2048, #[], #[.int 1], some .null⟩, compile_skippedDefinition,
    rfl, by decide, by decide, rfl, ?_, by decide +kernel⟩
  intro yields
  exact yields.not_undefined
    (show _ = Progress.failed ⟨22, .undefinedGlobal 1⟩
        ⟨2048, #[], #[.int 1], some .null⟩ by decide +kernel)

end StackLang
