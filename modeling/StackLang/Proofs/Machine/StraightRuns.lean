import StackLang.Proofs.Code.Disassembly
import StackLang.Proofs.Code.Format
import StackLang.Proofs.Machine.Failures
import StackLang.Proofs.Machine.MemoryHistory
import StackLang.Proofs.Machine.StackSafety

namespace StackLang

/-!
# Runs along a listing

A run over code whose listing has no jump goes along the listing, whatever bytes
the code has. Both stop in front of the same bytes, and for the same reason,
unless an instruction fails before: that is never for bytes that are not
decoded.
-/

/-- How a run of at most `fuel` steps follows the lines ahead of it. It has
executed as many as it made steps. Behind the last line it comes to an offset
with the reason why no line follows, and it fails for this reason or, if there
is none, has reached the end of the code. -/
inductive Follows (ahead : List Line) (finish : Nat)
    (reason : Option DecodeError) (fuel : Nat) :
    List Line → Progress → Prop
  | running {executed : List Line} (begins : executed <+: ahead)
      (eachStep : executed.length = fuel) (offset : Nat) (machine : Machine) :
      Follows ahead finish reason fuel executed (.running offset machine)
  | finished (noReason : reason = none) (machine : Machine) :
      Follows ahead finish reason fuel ahead (.finished machine)
  | undecodable {source : DecodeError} (isReason : reason = some source)
      (machine : Machine) :
      Follows ahead finish reason fuel ahead
        (.failed ⟨finish, .decode source⟩ machine)
  | failed {executed : List Line} (begins : executed <+: ahead)
      {error : RuntimeError}
      (decoded : ∀ source, error.fault ≠ .decode source) (machine : Machine) :
      Follows ahead finish reason fuel executed (.failed error machine)

namespace Follows

variable {ahead executed : List Line} {finish fuel : Nat}
variable {reason : Option DecodeError} {progress : Progress}

/-- A line is executed before the others. -/
theorem cons (line : Line)
    (follows : Follows ahead finish reason fuel executed progress) :
    Follows (line :: ahead) finish reason (fuel + 1) (line :: executed)
      progress := by
  cases follows with
  | running begins eachStep offset machine =>
      exact .running ((List.prefix_cons_inj line).mpr begins)
        (congrArg (· + 1) eachStep) offset machine
  | finished noReason machine =>
      exact .finished noReason machine
  | undecodable isReason machine =>
      exact .undecodable isReason machine
  | failed begins decoded machine =>
      exact .failed ((List.prefix_cons_inj line).mpr begins) decoded machine

/-- What has been executed are the first of the lines ahead. -/
theorem isPrefix
    (follows : Follows ahead finish reason fuel executed progress) :
    executed <+: ahead := by
  cases follows with
  | running begins _ _ _ | failed begins _ _ =>
      exact begins
  | finished _ _ | undecodable _ _ =>
      exact List.prefix_rfl

/-- A run that may make more steps than there are lines has ended. -/
theorem hasEnded
    (follows : Follows ahead finish reason fuel executed progress)
    (enough : ahead.length < fuel) : progress.HasEnded := by
  cases follows with
  | running begins eachStep offset machine =>
      have shorter := begins.length_le
      omega
  | finished _ _ | undecodable _ _ | failed _ _ _ =>
      trivial

/-- A run that fails for bytes that are not decoded has executed all lines, and
the bytes are those behind them. -/
theorem all_of_undecodable
    {offset : Nat} {source : DecodeError} {machine : Machine}
    (follows :
      Follows ahead finish reason fuel executed
        (.failed ⟨offset, .decode source⟩ machine)) :
    executed = ahead ∧ offset = finish ∧ reason = some source := by
  cases follows with
  | undecodable isReason machine =>
      exact ⟨rfl, rfl, isReason⟩
  | failed begins decoded machine =>
      exact (decoded source rfl).elim

/-- A run that ends without an error has executed all lines, and nothing is
behind them. -/
theorem all_of_finished
    {machine : Machine}
    (follows :
      Follows ahead finish reason fuel executed (.finished machine)) :
    executed = ahead ∧ reason = none := by
  cases follows with
  | finished noReason machine =>
      exact ⟨rfl, noReason⟩

end Follows

namespace Bytecode

variable {bytecode : Bytecode} {offset next : Nat} {machine : Machine}

/-- A step at an instruction that is not a jump goes on behind the instruction,
with no more values than the stack has room for, or fails in another way than
for bytes that are not decoded. -/
theorem step_of_straight
    {instr : Instr}
    (fetched : bytecode.code.fetch offset = .instr instr next)
    (straight : instr.opcode.isJump = false)
    (bounded : machine.stack.size ≤ machine.capacity) :
    (∃ after,
        bytecode.step offset machine = .running next after ∧
          after.stack.size ≤ after.capacity) ∨
      ∃ error after,
        bytecode.step offset machine = .failed error after ∧
          ∀ source, error.fault ≠ .decode source := by
  have boundedAfter := (bytecode.step_becomes offset machine).fits bounded
  simp only [step, fetched] at boundedAfter ⊢
  cases executed : instr.execute bytecode.constants next machine with
  | ok target after =>
      rw [executed] at boundedAfter
      left
      rcases Instr.target_of_execute executed with ⟨_, rfl⟩ | ⟨jumps, _⟩
      · exact ⟨after, rfl, boundedAfter⟩
      · rw [straight] at jumps
        cases jumps
  | error fault after =>
      right
      refine ⟨_, after, rfl, ?_⟩
      rintro source rfl
      obtain ⟨_, _, fails⟩ :=
        instr.execute_failsOnlyAs bytecode.constants next bounded machine
          (.refl machine) _ _ executed
      cases fails

/-- A run from an offset follows the instructions that stand there if none of
them is a jump. -/
theorem runFrom_follows
    {instrs : List Instr} {reason : Option DecodeError}
    (holds : bytecode.code.Holds offset instrs)
    (straight : ∀ instr ∈ instrs, instr.opcode.isJump = false)
    (behind :
      bytecode.code.fetch (offset + codeSize instrs) =
        match reason with
        | none =>
            .past
        | some source =>
            .undecodable source)
    (bounded : machine.stack.size ≤ machine.capacity) (fuel : Nat) :
    Follows (linesFrom offset instrs) (offset + codeSize instrs) reason fuel
      ((bytecode.stagesFrom fuel offset machine).filterMap bytecode.fetched?)
      (bytecode.runFrom fuel offset machine) := by
  -- Each of the instructions takes one step; the last step is that behind them.
  induction instrs generalizing offset machine fuel with
  | nil =>
      cases fuel with
      | zero =>
          exact .running List.nil_prefix rfl offset machine
      | succ fuel =>
          rw [codeSize_nil, Nat.add_zero] at behind ⊢
          rw [filterMap_stagesFrom_succ, runFrom, fetched?, step]
          cases reason with
          | none =>
              simp only [behind]
              exact .finished rfl machine
          | some source =>
              simp only [behind]
              exact .undecodable rfl machine
  | cons instr rest inductionHypothesis =>
      cases fuel with
      | zero =>
          exact .running List.nil_prefix rfl offset machine
      | succ fuel =>
          have fetched := holds.fetch
          have first :
              bytecode.fetched? ⟨offset, machine⟩ = some ⟨offset, instr⟩ := by
            simp only [fetched?, fetched]
          rw [codeSize_cons, ← Nat.add_assoc] at behind ⊢
          rw [filterMap_stagesFrom_succ, runFrom, first, linesFrom]
          rcases step_of_straight fetched (straight instr List.mem_cons_self)
              bounded with
            ⟨after, stepped, boundedAfter⟩ | ⟨error, after, stepped, decoded⟩
          · rw [stepped]
            have restStraight (other : Instr) (member : other ∈ rest) :
                other.opcode.isJump = false :=
              straight other (List.mem_cons_of_mem instr member)
            have follows :=
              inductionHypothesis holds.tail restStraight behind boundedAfter
                fuel
            exact follows.cons ⟨offset, instr⟩
          · rw [stepped]
            exact .failed ((List.prefix_cons_inj _).mpr List.nil_prefix)
              decoded after

/-- A run in memory follows the lines of the listing if none of them is a
jump. -/
theorem runInMemory_follows
    {start : Memory}
    (straight :
      ∀ line ∈ bytecode.code.listing.lines,
        line.instr.opcode.isJump = false)
    (fits : start.Fits) (fuel : Nat) :
    ∃ progress,
      (bytecode.runInMemory fuel start).progress? = some progress ∧
        Follows bytecode.code.listing.lines.toList
          (codeSize (bytecode.code.listing.lines.toList.map Line.instr))
          bytecode.code.listing.fault fuel
          (bytecode.executedInMemory fuel start) progress := by
  obtain ⟨instrs, rest, splits⟩ := bytecode.code.exists_splits
  rw [splits.listing_eq] at straight ⊢
  have instrsStraight (instr : Instr) (member : instr ∈ instrs) :
      instr.opcode.isJump = false := by
    rw [← map_instr_linesFrom 0 instrs] at member
    obtain ⟨line, isListed, rfl⟩ := List.mem_map.mp member
    exact straight line (by simpa using isListed)
  have behind := splits.fetch_rest
  rw [← Nat.zero_add (codeSize instrs)] at behind
  have bounded : start.machine.stack.size ≤ start.machine.capacity := by
    rw [start.size_stack_machine fits]
    exact fits
  have follows :=
    runFrom_follows splits.holds instrsStraight behind bounded fuel
  refine ⟨_, (bytecode.runInMemory_shows fuel fits).same, ?_⟩
  rw [executedInMemory_eq fuel fits, map_instr_linesFrom]
  rwa [Nat.zero_add] at follows

/-- A run in memory follows the listing of its code, and stops where the listing
stops unless an instruction fails before. -/
structure FollowsListing (bytecode : Bytecode) (start : Memory) : Prop where
  /-- The run ends, once it may make more steps than there are lines. -/
  ends :
    ∀ fuel > bytecode.code.listing.lines.size,
      (∃ after, bytecode.runInMemory fuel start = .finished after) ∨
        ∃ error after, bytecode.runInMemory fuel start = .failed error after
  /-- What it has come to, at whatever point, are the first of the lines. -/
  executes :
    ∀ fuel,
      bytecode.executedInMemory fuel start <+:
        bytecode.code.listing.lines.toList
  /-- If it fails for bytes that are not decoded, it does so behind all of the
  lines, and the text ends with the same reason. -/
  undecodable :
    ∀ fuel offset source after,
      bytecode.runInMemory fuel start =
        .failed ⟨offset, .decode source⟩ after →
      let lines := bytecode.code.listing.lines.toList
      bytecode.executedInMemory fuel start = lines ∧
        offset = codeSize (lines.map Line.instr) ∧
        bytecode.code.disassemble =
          endLines
            (lines.map Line.text ++ ["ERROR: " ++ source.message])
  /-- If it ends without an error, the code is what the lines show, and the text
  has no line but these. -/
  finished :
    ∀ fuel after,
      bytecode.runInMemory fuel start = .finished after →
      let lines := bytecode.code.listing.lines.toList
      bytecode.executedInMemory fuel start = lines ∧
        bytecode.code.Consists (lines.map Line.instr) ∧
        bytecode.code.disassemble = endLines (lines.map Line.text)

end Bytecode

/-- Whatever bytes are run, with any constants and any memory to begin with: if
no jump is listed, the run follows the listing. -/
theorem straight_run_follows_listing
    {bytecode : Bytecode} {start : Memory}
    (straight :
      ∀ line ∈ bytecode.code.listing.lines,
        line.instr.opcode ≠ .jump ∧ line.instr.opcode ≠ .jumpNotTruthy)
    (fits : start.used ≤ start.cells.size) :
    bytecode.FollowsListing start := by
  have noJump (line : Line)
      (member : line ∈ bytecode.code.listing.lines) :
      line.instr.opcode.isJump = false := by
    rw [← Bool.not_eq_true]
    intro jumps
    obtain ⟨notJump, notConditional⟩ := straight line member
    exact (Opcode.eq_of_isJump jumps).elim notJump notConditional
  have text := bytecode.code.disassemble_eq
  refine
    { ends := fun fuel enough => ?ends
      executes := fun fuel => ?executes
      undecodable := fun fuel offset source after failed => ?undecodable
      finished := fun fuel after finishes => ?finished }
  all_goals
    obtain ⟨progress, same, follows⟩ :=
      Bytecode.runInMemory_follows noJump fits fuel
  case ends =>
    have ended := follows.hasEnded enough
    cases shown : bytecode.runInMemory fuel start with
    | running offset after =>
        rw [shown] at same
        cases same
        exact ended.elim
    | finished after =>
        exact .inl ⟨after, rfl⟩
    | failed error after =>
        exact .inr ⟨error, after, rfl⟩
    | outOfBounds after =>
        rw [shown] at same
        cases same
  case executes =>
    exact follows.isPrefix
  case undecodable =>
    rw [failed] at same
    cases same
    obtain ⟨executedAll, isFinish, isReason⟩ := follows.all_of_undecodable
    rw [isReason] at text
    exact ⟨executedAll, isFinish, text⟩
  case finished =>
    rw [finishes] at same
    cases same
    obtain ⟨executedAll, noReason⟩ := follows.all_of_finished
    rw [noReason, Option.toList_none, List.map_nil, List.append_nil] at text
    exact ⟨executedAll, Code.consists_iff_listing.mpr ⟨noReason, rfl⟩, text⟩

/-- A truth value that is discarded, and a constant whose index is cut off. -/
def cutOffConstant : Bytecode :=
  ⟨⟨#[6, 2, 0, 15]⟩, #[.int 5]⟩

/-- Two instructions are listed and executed, and then there are too few bytes
for a third one. -/
theorem cutOffConstant_follows_listing :
    let start : Memory := ⟨#[.null], 0, #[.int 7], 0, none⟩
    let after : Memory := ⟨#[.bool true], 0, #[.int 7], 2, some (.bool true)⟩
    (∀ line ∈ cutOffConstant.code.listing.lines,
        line.instr.opcode ≠ .jump ∧ line.instr.opcode ≠ .jumpNotTruthy) ∧
      start.used ≤ start.cells.size ∧
      cutOffConstant.runInMemory 3 start =
        .failed ⟨2, .decode (.truncated "OpConstant" 2 1)⟩ after ∧
      cutOffConstant.FollowsListing start := by
  intro start after
  have listed :
      cutOffConstant.code.listing =
        ⟨#[⟨0, ⟨.pushTrue, []⟩⟩, ⟨1, ⟨.pop, []⟩⟩],
          some (.truncated "OpConstant" 2 1)⟩ := by
    cbv
  have straight :
      ∀ line ∈ cutOffConstant.code.listing.lines,
        line.instr.opcode ≠ .jump ∧
          line.instr.opcode ≠ .jumpNotTruthy := by
    rw [listed]
    decide
  have fits : start.used ≤ start.cells.size := by
    decide
  have failed :
      cutOffConstant.runInMemory 3 start =
        .failed ⟨2, .decode (.truncated "OpConstant" 2 1)⟩ after := by
    decide +kernel
  exact ⟨straight, fits, failed, straight_run_follows_listing straight fits⟩

end StackLang
