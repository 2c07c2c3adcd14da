import StackLang.Proofs.Machine.Safety

namespace StackLang

open MachineM

/-!
# Stack capacity

A machine with room for more values does what one with less room does, until the
latter overflows its stack. In memory the same holds of any two stacks whose
cells in use agree: what the other cells hold is never seen.
-/

/-- The machine with another capacity. -/
def Machine.withCapacity (machine : Machine) (capacity : Nat) : Machine :=
  { machine with capacity }

/-- A step with room for more values does the same, unless it overflows the
stack as it is. -/
def IgnoresRoom {α : Type} (step : MachineM α) : Prop :=
  ∀ (machine : Machine) (capacity : Nat), machine.capacity ≤ capacity →
    match step machine with
    | .ok value after =>
        after.capacity = machine.capacity ∧
          step (machine.withCapacity capacity) =
            .ok value (after.withCapacity capacity)
    | .error fault after =>
        fault = .stackOverflow ∨
          step (machine.withCapacity capacity) =
            .error fault (after.withCapacity capacity)

namespace IgnoresRoom

variable {α β : Type}

theorem pure (value : α) : IgnoresRoom (Pure.pure value) :=
  fun _ _ _ => ⟨rfl, rfl⟩

theorem throw (fault : Fault) :
    IgnoresRoom (MonadExcept.throw fault : MachineM α) :=
  fun _ _ _ => .inr rfl

theorem bind
    {step : MachineM α} {next : α → MachineM β}
    (ignores : IgnoresRoom step)
    (nextIgnores : ∀ value, IgnoresRoom (next value)) :
    IgnoresRoom (step >>= next) := by
  intro machine capacity roomier
  have first := ignores machine capacity roomier
  cases shape : step machine with
  | ok value middle =>
      rw [shape] at first
      obtain ⟨kept, sameStep⟩ := first
      have rest := nextIgnores value middle capacity (kept ▸ roomier)
      rw [bind_of_ok shape, bind_of_ok sameStep]
      cases shapeRest : next value middle with
      | ok found after =>
          rw [shapeRest] at rest
          exact ⟨rest.1.trans kept, rest.2⟩
      | error fault after =>
          rw [shapeRest] at rest
          exact rest
  | error fault after =>
      rw [shape] at first
      rw [bind_of_error shape]
      exact first.imp_right fun sameStep => bind_of_error sameStep next

theorem push (value : Value) : IgnoresRoom (MachineM.push value) := by
  intro machine capacity roomier
  cases pushed : MachineM.push value machine with
  | ok found after =>
      obtain ⟨room, rfl⟩ := push_eq_ok_iff.mp pushed
      exact ⟨rfl, push_eq_ok_iff.mpr ⟨Nat.lt_of_lt_of_le room roomier, rfl⟩⟩
  | error fault after =>
      exact .inl (push_eq_error_iff.mp pushed).2.1

theorem pop : IgnoresRoom MachineM.pop := by
  intro machine capacity roomier
  cases popped : MachineM.pop machine with
  | ok value after =>
      obtain ⟨top, rfl⟩ := pop_eq_ok_iff.mp popped
      exact ⟨rfl, pop_eq_ok_iff.mpr ⟨top, rfl⟩⟩
  | error fault after =>
      obtain ⟨isEmpty, rfl, rfl⟩ := pop_eq_error_iff.mp popped
      exact .inr (pop_eq_error_iff.mpr ⟨isEmpty, rfl, rfl⟩)

theorem getGlobal (slot : Nat) : IgnoresRoom (MachineM.getGlobal slot) := by
  intro machine capacity roomier
  cases found : MachineM.getGlobal slot machine with
  | ok value after =>
      obtain ⟨present, rfl⟩ := getGlobal_eq_ok_iff.mp found
      exact ⟨rfl, getGlobal_eq_ok_iff.mpr ⟨present, rfl⟩⟩
  | error fault after =>
      obtain ⟨absent, rfl, rfl⟩ := getGlobal_eq_error_iff.mp found
      exact .inr (getGlobal_eq_error_iff.mpr ⟨absent, rfl, rfl⟩)

/-- Operations on the stack ignore room that they do not need. -/
theorem hereditary : Hereditary IgnoresRoom where
  pure := pure
  throw fault _ := throw fault
  bind := bind
  push := push
  pop := pop

end IgnoresRoom

/-- An instruction ignores room that it does not need. -/
theorem Instr.execute_ignoresRoom
    (instr : Instr) (constants : Array Value) (next : Nat) :
    IgnoresRoom (instr.execute constants next) :=
  IgnoresRoom.hereditary.execute instr constants next
    (fun _ _ _ _ _ => ⟨rfl, rfl⟩) (fun _ _ _ _ _ => ⟨rfl, rfl⟩)
    (fun _ => .getGlobal _)

/-- The progress of a machine with another capacity. -/
def Progress.withCapacity (capacity : Nat) : Progress → Progress
  | .running offset machine =>
      .running offset (machine.withCapacity capacity)
  | .finished machine =>
      .finished (machine.withCapacity capacity)
  | .failed error machine =>
      .failed error (machine.withCapacity capacity)

/-- The run has overflown the stack. -/
def Progress.HasOverflown (progress : Progress) : Prop :=
  ∃ error machine,
    progress = .failed error machine ∧ error.fault = .stackOverflow

/-- A step with room for more values is the same step, unless it overflows the
stack as it is. -/
theorem Bytecode.step_withCapacity
    (bytecode : Bytecode) (offset : Nat) {machine : Machine} {capacity : Nat}
    (roomier : machine.capacity ≤ capacity) :
    (bytecode.step offset machine).HasOverflown ∨
      bytecode.step offset (machine.withCapacity capacity) =
        (bytecode.step offset machine).withCapacity capacity := by
  simp only [step]
  cases bytecode.code.fetch offset with
  | past =>
      exact .inr rfl
  | undecodable source =>
      exact .inr rfl
  | instr instr next =>
      have ignores :=
        instr.execute_ignoresRoom bytecode.constants next machine capacity
          roomier
      simp only
      cases executed : instr.execute bytecode.constants next machine with
      | ok target after =>
          rw [executed] at ignores
          rw [ignores.2]
          exact .inr rfl
      | error fault after =>
          rw [executed] at ignores
          rcases ignores with overflows | same
          · exact .inl ⟨_, _, rfl, overflows⟩
          · rw [same]
            exact .inr rfl

/-- A run with room for more values is the same run, unless it overflows the
stack as it is. -/
theorem Bytecode.runFrom_withCapacity
    (bytecode : Bytecode) (fuel offset : Nat) {machine : Machine}
    {capacity : Nat} (roomier : machine.capacity ≤ capacity) :
    (bytecode.runFrom fuel offset machine).HasOverflown ∨
      bytecode.runFrom fuel offset (machine.withCapacity capacity) =
        (bytecode.runFrom fuel offset machine).withCapacity capacity := by
  induction fuel generalizing offset machine with
  | zero =>
      exact .inr rfl
  | succ fuel inductionHypothesis =>
      have first := bytecode.step_withCapacity offset roomier
      have kept := bytecode.step_becomes offset machine
      rw [runFrom, runFrom]
      cases stepped : bytecode.step offset machine with
      | running target after =>
          rw [stepped] at first kept
          rcases first with ⟨_, _, ⟨⟩, _⟩ | same
          rw [same]
          have roomierAfter : after.capacity ≤ capacity := by
            have keptCapacity : after.capacity = machine.capacity :=
              kept.capacity
            rwa [keptCapacity]
          exact inductionHypothesis target roomierAfter
      | finished after | failed error after =>
          rw [stepped] at first
          exact first.imp_right fun same => by rw [same]; rfl

namespace Memory

/-- The same lies in the cells in use, of which there are as many, and beside
the stack. -/
structure SameInUse (first second : Memory) : Prop where
  used : first.used = second.used
  cells :
    ∀ index < first.used, first.cells[index]? = second.cells[index]?
  globals : first.globals = second.globals
  lastPopped : first.lastPopped = second.lastPopped

variable {first second : Memory}

/-- The machines in memory differ at most in their capacities if the same lies
in use. -/
theorem SameInUse.machine_eq
    (same : first.SameInUse second) (fits : first.Fits)
    (otherFits : second.Fits) :
    second.machine = first.machine.withCapacity second.cells.size := by
  have sameStack : second.machine.stack = first.machine.stack := by
    apply Array.ext_getElem?
    intro index
    by_cases inUse : index < first.used
    · rw [getElem?_stack_machine inUse, same.cells index inUse,
        getElem?_stack_machine (same.used ▸ inUse)]
    · have beyond : first.machine.stack.size ≤ index := by
        rw [size_stack_machine fits]
        exact Nat.le_of_not_lt inUse
      have otherBeyond : second.machine.stack.size ≤ index := by
        rwa [size_stack_machine otherFits, ← same.used,
          ← size_stack_machine fits]
      rw [Array.getElem?_eq_none beyond, Array.getElem?_eq_none otherBeyond]
  simp only [Machine.withCapacity, ← sameStack]
  simp only [machine, same.globals, same.lastPopped]

/-- The same lies in use if the machines in memory differ at most in their
capacities. -/
theorem SameInUse.of_machine_eq
    {capacity : Nat} (fits : first.Fits) (otherFits : second.Fits)
    (same : second.machine = first.machine.withCapacity capacity) :
    first.SameInUse second := by
  have sameStack : second.machine.stack = first.machine.stack := by
    rw [same]
    rfl
  have sameUsed : first.used = second.used := by
    rw [← size_stack_machine fits, ← size_stack_machine otherFits, sameStack]
  refine ⟨sameUsed, ?_, ?_, ?_⟩
  · intro index inUse
    rw [← getElem?_stack_machine inUse, ← sameStack,
      getElem?_stack_machine (sameUsed ▸ inUse)]
  · exact (congrArg Machine.globals same).symm
  · exact (congrArg Machine.lastPopped same).symm

end Memory

/-- Two runs have come to the same offset, or have ended in the same way, and
what lies in use is the same. -/
inductive MemoryProgress.Agrees : MemoryProgress → MemoryProgress → Prop
  | running (offset : Nat) {first second : Memory}
      (same : first.SameInUse second) :
      Agrees (.running offset first) (.running offset second)
  | finished {first second : Memory} (same : first.SameInUse second) :
      Agrees (.finished first) (.finished second)
  | failed (error : RuntimeError) {first second : Memory}
      (same : first.SameInUse second) :
      Agrees (.failed error first) (.failed error second)

/-- What is shown of two runs agrees if the runs differ at most in the
capacities of their machines. -/
theorem MemoryProgress.Shows.agrees
    {shown other : MemoryProgress} {progress : Progress} {capacity : Nat}
    (shows : shown.Shows progress)
    (otherShows : other.Shows (progress.withCapacity capacity)) :
    shown.Agrees other := by
  obtain ⟨same, fits⟩ := shows
  obtain ⟨otherSame, otherFits⟩ := otherShows
  cases shown with
  | running offset memory =>
      cases Option.some.inj same
      cases other <;>
        simp only [progress?, Progress.withCapacity, Option.some.injEq,
          Progress.running.injEq, reduceCtorEq] at otherSame
      obtain ⟨rfl, sameMachine⟩ := otherSame
      exact .running _ (.of_machine_eq fits otherFits sameMachine)
  | finished memory =>
      cases Option.some.inj same
      cases other <;>
        simp only [progress?, Progress.withCapacity, Option.some.injEq,
          Progress.finished.injEq, reduceCtorEq] at otherSame
      exact .finished (.of_machine_eq fits otherFits otherSame)
  | failed error memory =>
      cases Option.some.inj same
      cases other <;>
        simp only [progress?, Progress.withCapacity, Option.some.injEq,
          Progress.failed.injEq, reduceCtorEq] at otherSame
      obtain ⟨rfl, sameMachine⟩ := otherSame
      exact .failed _ (.of_machine_eq fits otherFits sameMachine)
  | outOfBounds memory =>
      cases same

/-- The run has overflown the stack. -/
def MemoryProgress.HasOverflown (progress : MemoryProgress) : Prop :=
  ∃ error memory,
    progress = .failed error memory ∧ error.fault = .stackOverflow

/-- A run in memory shows the overflow of the machine's own run. -/
theorem MemoryProgress.Shows.hasOverflown
    {shown : MemoryProgress} {progress : Progress}
    (shows : shown.Shows progress) (overflown : progress.HasOverflown) :
    shown.HasOverflown := by
  obtain ⟨same, _⟩ := shows
  obtain ⟨error, machine, rfl, overflows⟩ := overflown
  cases shown <;>
    simp only [progress?, Option.some.injEq, Progress.failed.injEq,
      reduceCtorEq] at same
  obtain ⟨rfl, _⟩ := same
  exact ⟨_, _, rfl, overflows⟩

/-- The runs of two stacks agree at every point until the first of them
overflows, and before the instruction at which it does. -/
structure Bytecode.AgreesUpToOverflow
    (bytecode : Bytecode) (small large : Memory) : Prop where
  agrees :
    ∀ fuel, ¬ (bytecode.runInMemory fuel small).HasOverflown →
      (bytecode.runInMemory fuel small).Agrees
        (bytecode.runInMemory fuel large)
  /-- After one step at least, the offset that is kept for errors is the same. -/
  current :
    ∀ fuel offset after other,
      bytecode.runInMemory (fuel + 1) small = .running offset after →
      bytecode.runInMemory (fuel + 1) large = .running offset other →
      after.current = other.current
  beforeOverflow :
    ∀ fuel error after,
      bytecode.runInMemory fuel small = .failed error after →
      error.fault = .stackOverflow →
      ∃ steps < fuel, ∃ before other,
        bytecode.runInMemory steps small = .running error.offset before ∧
          bytecode.runInMemory steps large = .running error.offset other ∧
          before.SameInUse other ∧
          bytecode.stepInMemory error.offset before = .failed error after

/-- The capacity of a stack makes no difference but by an overflow, and what
lies in cells that are not in use makes none. -/
theorem agreesUpToOverflow
    (bytecode : Bytecode) {small large : Memory}
    (fits : small.used ≤ small.cells.size)
    (roomier : small.cells.size ≤ large.cells.size)
    (same : small.SameInUse large) :
    bytecode.AgreesUpToOverflow small large := by
  have otherFits : large.Fits := by
    rw [Memory.Fits, ← same.used]
    exact Nat.le_trans fits roomier
  have agrees (fuel : Nat)
      (notOverflown : ¬ (bytecode.runInMemory fuel small).HasOverflown) :
      (bytecode.runInMemory fuel small).Agrees
        (bytecode.runInMemory fuel large) := by
    have shows := bytecode.runInMemory_shows fuel fits
    have otherShows := bytecode.runInMemory_shows fuel otherFits
    rw [same.machine_eq fits otherFits] at otherShows
    have sameUnlessOverflown :
        (bytecode.run fuel small.machine).HasOverflown ∨
          bytecode.run fuel (small.machine.withCapacity large.cells.size) =
            (bytecode.run fuel small.machine).withCapacity large.cells.size :=
      bytecode.runFrom_withCapacity fuel 0 roomier
    rcases sameUnlessOverflown with overflown | sameRun
    · exact (notOverflown (shows.hasOverflown overflown)).elim
    · rw [sameRun] at otherShows
      exact shows.agrees otherShows
  -- Where the run with less room goes on, the other one does so too.
  have follows {fuel offset : Nat} {reached : Memory}
      (running : bytecode.runInMemory fuel small = .running offset reached) :
      ∃ other,
        bytecode.runInMemory fuel large = .running offset other ∧
          reached.SameInUse other := by
    have notOverflown : ¬ (bytecode.runInMemory fuel small).HasOverflown := by
      rintro ⟨error, machine, failed, _⟩
      rw [running] at failed
      cases failed
    have agreesThere := agrees fuel notOverflown
    rw [running] at agreesThere
    generalize bytecode.runInMemory fuel large = shown at agreesThere
    cases agreesThere with
    | running _ sameThere =>
        exact ⟨_, rfl, sameThere⟩
  refine ⟨agrees, ?current, ?beforeOverflow⟩
  case current =>
    intro fuel offset after other running otherRunning
    obtain ⟨last, before, comes, steps⟩ :=
      Bytecode.exists_stage_of_runningInMemory running
    obtain ⟨otherLast, otherBefore, otherComes, otherSteps⟩ :=
      Bytecode.exists_stage_of_runningInMemory otherRunning
    obtain ⟨found, otherFound, _⟩ := follows comes
    have isFound := otherComes.symm.trans otherFound
    cases isFound
    have fitsBefore := Bytecode.fits_of_runningInMemory fits comes
    have otherFitsBefore :=
      Bytecode.fits_of_runningInMemory otherFits otherComes
    rw [Bytecode.current_of_stepInMemory fitsBefore steps,
      Bytecode.current_of_stepInMemory otherFitsBefore otherSteps]
  case beforeOverflow =>
    intro fuel error after failed overflows
    obtain ⟨steps, below, before, comes, stops, _⟩ :=
      Bytecode.exists_failing_step fits failed
    obtain ⟨other, otherComes, sameBefore⟩ := follows comes
    exact ⟨steps, below, before, other, comes, otherComes, sameBefore, stops⟩

/-- Two pushes and a pop. -/
def twoPushes : Bytecode :=
  ⟨⟨#[6, 7, 2]⟩, #[]⟩

/-- Two stacks with one value in use and other values left in the cells above
it. The second push overflows the smaller one only. -/
theorem twoPushes_agreesUpToOverflow :
    let small : Memory := ⟨#[.int 1, .int 2], 1, #[.null], 0, none⟩
    let large : Memory := ⟨#[.int 1, .bool true, .int 3], 1, #[.null], 2, none⟩
    small.used ≤ small.cells.size ∧
      small.cells.size ≤ large.cells.size ∧
      small.SameInUse large ∧
      twoPushes.runInMemory 2 small =
        .failed ⟨1, .stackOverflow⟩
          ⟨#[.int 1, .bool true], 2, #[.null], 1, none⟩ ∧
      twoPushes.AgreesUpToOverflow small large := by
  intro small large
  have fits : small.used ≤ small.cells.size := by
    decide
  have roomier : small.cells.size ≤ large.cells.size := by
    decide
  have same : small.SameInUse large := by
    refine ⟨rfl, ?_, rfl, rfl⟩
    intro index inUse
    rw [Nat.lt_one_iff.mp inUse]
    rfl
  exact ⟨fits, roomier, same, by decide +kernel,
    agreesUpToOverflow twoPushes fits roomier same⟩

end StackLang
