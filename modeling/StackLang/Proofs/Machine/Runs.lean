import StackLang.Machine.Trace

namespace StackLang

/-!
# Runs

A run goes through stages, each an offset with the machine that comes to it.
What a run does along its way is read off its stages: the trace lists what is
visited at them.
-/

/-- The run goes no further. -/
def Progress.HasEnded : Progress → Prop
  | .running _ _ =>
      False
  | .finished _ | .failed _ _ =>
      True

theorem Progress.hasEnded_of_finished
    {progress : Progress} {machine : Machine}
    (finishes : progress = .finished machine) : progress.HasEnded := by
  rw [finishes]
  trivial

/-- An offset that a run comes to, and the machine as it is then. -/
structure Stage where
  offset : Nat
  machine : Machine

namespace Bytecode

variable {bytecode : Bytecode} {offset : Nat} {machine : Machine}

/-- The stages of a run from an offset, at most `fuel` of them. -/
def stagesFrom (bytecode : Bytecode) :
    (fuel offset : Nat) → Machine → List Stage
  | 0, _, _ =>
      []
  | fuel + 1, offset, machine =>
      ⟨offset, machine⟩ ::
        match bytecode.step offset machine with
        | .running offset machine =>
            bytecode.stagesFrom fuel offset machine
        | _ =>
            []

/-- The stages of a run from the start of the code, at most `fuel` of them. -/
def stages (bytecode : Bytecode) (fuel : Nat) (machine : Machine) :
    List Stage :=
  bytecode.stagesFrom fuel 0 machine

/-- A step that goes on has executed the instruction that stands there. -/
theorem exists_of_step_running
    {target : Nat} {after : Machine}
    (stepped : bytecode.step offset machine = .running target after) :
    ∃ instr next,
      bytecode.code.fetch offset = .instr instr next ∧
        instr.execute bytecode.constants next machine = .ok target after := by
  simp only [step] at stepped
  split at stepped
  case h_1 =>
    cases stepped
  case h_2 =>
    cases stepped
  case h_3 instr next fetched =>
    split at stepped
    case h_1 executed =>
      cases stepped
      exact ⟨instr, next, fetched, executed⟩
    case h_2 =>
      cases stepped

/-- A step that fails does so at its offset: there is no instruction, or the
one that stands there fails. -/
theorem exists_of_step_failed
    {error : RuntimeError} {after : Machine}
    (stepped : bytecode.step offset machine = .failed error after) :
    error.offset = offset ∧
      ((∃ source, error.fault = .decode source) ∨
        ∃ instr next,
          bytecode.code.fetch offset = .instr instr next ∧
            instr.execute bytecode.constants next machine =
              .error error.fault after) := by
  simp only [step] at stepped
  split at stepped
  case h_1 =>
    cases stepped
  case h_2 source _ =>
    cases stepped
    exact ⟨rfl, .inl ⟨source, rfl⟩⟩
  case h_3 instr next fetched =>
    split at stepped
    case h_1 =>
      cases stepped
    case h_2 executed =>
      cases stepped
      exact ⟨rfl, .inr ⟨instr, next, fetched, executed⟩⟩

/-- The stages of a run are what it has come to after so many steps. -/
theorem mem_stagesFrom_iff {fuel : Nat} {stage : Stage} :
    stage ∈ bytecode.stagesFrom fuel offset machine ↔
      ∃ steps < fuel,
        bytecode.runFrom steps offset machine =
          .running stage.offset stage.machine := by
  induction fuel generalizing offset machine with
  | zero =>
      simp [stagesFrom]
  | succ fuel inductionHypothesis =>
      constructor
      case mp =>
        intro member
        rcases List.mem_cons.mp member with rfl | inLater
        · exact ⟨0, Nat.zero_lt_succ fuel, rfl⟩
        · cases stepped : bytecode.step offset machine with
          | running target after =>
              rw [stepped] at inLater
              obtain ⟨steps, below, reaches⟩ := inductionHypothesis.mp inLater
              refine ⟨steps + 1, Nat.succ_lt_succ below, ?_⟩
              rw [runFrom, stepped]
              exact reaches
          | finished after | failed error after =>
              rw [stepped] at inLater
              cases inLater
      case mpr =>
        rintro ⟨steps, below, reaches⟩
        cases steps with
        | zero =>
            cases reaches
            exact List.mem_cons_self
        | succ steps =>
            rw [runFrom] at reaches
            refine List.mem_cons_of_mem _ ?_
            cases stepped : bytecode.step offset machine with
            | running target after =>
                rw [stepped] at reaches
                exact inductionHypothesis.mpr
                  ⟨steps, Nat.lt_of_succ_lt_succ below, reaches⟩
            | finished after | failed error after =>
                rw [stepped] at reaches
                cases reaches

/-- A run of two parts goes on where the first part has come to. -/
theorem runFrom_add (first second : Nat) :
    bytecode.runFrom (first + second) offset machine =
      match bytecode.runFrom first offset machine with
      | .running offset machine =>
          bytecode.runFrom second offset machine
      | ended =>
          ended := by
  induction first generalizing offset machine with
  | zero =>
      rw [Nat.zero_add, runFrom]
  | succ first inductionHypothesis =>
      rw [Nat.add_right_comm, runFrom, runFrom]
      cases bytecode.step offset machine with
      | running target after =>
          exact inductionHypothesis
      | finished after | failed error after =>
          rfl

/-- The stages of a run of two parts are those of the parts. -/
theorem stagesFrom_add (first second : Nat) :
    bytecode.stagesFrom (first + second) offset machine =
      bytecode.stagesFrom first offset machine ++
        match bytecode.runFrom first offset machine with
        | .running offset machine =>
            bytecode.stagesFrom second offset machine
        | _ =>
            [] := by
  induction first generalizing offset machine with
  | zero =>
      rw [Nat.zero_add, runFrom]
      rfl
  | succ first inductionHypothesis =>
      rw [Nat.add_right_comm, stagesFrom, stagesFrom, runFrom]
      cases bytecode.step offset machine with
      | running target after =>
          exact congrArg _ inductionHypothesis
      | finished after | failed error after =>
          rfl

/-- A run that has come to an offset has this as its next stage. -/
theorem stagesFrom_succ_of_running
    {fuel target : Nat} {after : Machine}
    (running : bytecode.runFrom fuel offset machine = .running target after) :
    bytecode.stagesFrom (fuel + 1) offset machine =
      bytecode.stagesFrom fuel offset machine ++ [⟨target, after⟩] := by
  rw [stagesFrom_add, running]
  simp only [stagesFrom]
  cases bytecode.step target after <;> rfl

/-- A run that fails has come to the instruction that fails. -/
theorem exists_stage_of_failed
    {fuel : Nat} {error : RuntimeError} {after : Machine}
    (failed : bytecode.runFrom fuel offset machine = .failed error after) :
    ∃ steps target reached,
      steps < fuel ∧
        bytecode.runFrom steps offset machine = .running target reached ∧
        bytecode.step target reached = .failed error after := by
  induction fuel generalizing offset machine with
  | zero =>
      cases failed
  | succ fuel inductionHypothesis =>
      rw [runFrom] at failed
      cases stepped : bytecode.step offset machine with
      | running target middle =>
          rw [stepped] at failed
          obtain ⟨steps, last, reached, below, running, stops⟩ :=
            inductionHypothesis failed
          refine ⟨steps + 1, last, reached, Nat.succ_lt_succ below, ?_, stops⟩
          rw [runFrom, stepped]
          exact running
      | finished middle =>
          rw [stepped] at failed
          cases failed
      | failed raised middle =>
          rw [stepped] at failed
          cases failed
          exact ⟨0, offset, machine, Nat.zero_lt_succ fuel, rfl, stepped⟩

/-- More steps change nothing once a run has ended. -/
theorem runFrom_of_ended
    {fuel more : Nat} (enough : fuel ≤ more)
    (ended : (bytecode.runFrom fuel offset machine).HasEnded) :
    bytecode.runFrom more offset machine =
      bytecode.runFrom fuel offset machine := by
  obtain ⟨spare, rfl⟩ := Nat.exists_eq_add_of_le enough
  rw [runFrom_add]
  cases progress : bytecode.runFrom fuel offset machine with
  | running target after =>
      rw [progress] at ended
      exact ended.elim
  | finished after | failed error after =>
      rfl

/-- A run goes on only before it has ended. -/
theorem lt_of_running_of_ended
    {steps fuel target : Nat} {reached : Machine}
    (running : bytecode.runFrom steps offset machine = .running target reached)
    (ended : (bytecode.runFrom fuel offset machine).HasEnded) :
    steps < fuel := by
  refine Nat.lt_of_not_le fun late => ?_
  rw [← runFrom_of_ended late ended, running] at ended
  exact ended

/-- The trace lists what is visited at the stages. -/
theorem traceFrom_eq (fuel : Nat) (visits : Array Visit) :
    (bytecode.traceFrom fuel offset machine visits).toList =
      visits.toList ++
        (bytecode.stagesFrom fuel offset machine).filterMap
          (fun stage => bytecode.visit? stage.offset stage.machine) := by
  induction fuel generalizing offset machine visits with
  | zero =>
      simp [traceFrom, stagesFrom]
  | succ fuel inductionHypothesis =>
      simp only [traceFrom, stagesFrom, List.filterMap_cons]
      cases bytecode.visit? offset machine <;>
        cases bytecode.step offset machine <;>
          simp [inductionHypothesis]

/-- The trace of a run from the start lists what is visited at its stages. -/
theorem trace_eq (fuel : Nat) :
    (bytecode.trace fuel machine).toList =
      (bytecode.stages fuel machine).filterMap
        (fun stage => bytecode.visit? stage.offset stage.machine) := by
  rw [trace, stages, traceFrom_eq]
  exact List.nil_append _

end Bytecode

end StackLang
