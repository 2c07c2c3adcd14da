import StackLang.Compilation.Generation

namespace StackLang

/-!
# Log of a compilation

Adding a program to a compilation is announced, every edit of the code has a
line, and a closing line tells how much there is. A failure has no closing line.
-/

/-- The edits made since an earlier state of a compilation. -/
def Compilation.editsSince (after before : Compilation) : Array Edit :=
  after.assembler.journal.extract before.assembler.journal.size

/-- The line that announces a program. -/
def Compilation.openingLine
    (compilation : Compilation) (program : Program) : String :=
  LogLevel.debug.line
    s!"compiling {program.length} statement(s) starting at offset {compilation.assembler.offset}"

/-- The line that closes a successful compilation. -/
def Compilation.closingLine (compilation : Compilation) : String :=
  LogLevel.debug.line
    s!"compiled {compilation.assembler.offset} bytes, {compilation.constants.size} constant(s)"

/-- The log of adding a program to a compilation, with the result of doing so. -/
def Program.generationLog
    (program : Program) (before : Compilation) :
    EStateM.Result CompileError Compilation PUnit → Array String
  | .ok _ after =>
      (#[before.openingLine program] ++
        (after.editsSince before).map Edit.logLine).push after.closingLine
  | .error _ after =>
      #[before.openingLine program] ++
        (after.editsSince before).map Edit.logLine

end StackLang
