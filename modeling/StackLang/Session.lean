import StackLang.Compilation.Generation
import StackLang.Machine.Execution

namespace StackLang

/-!
# Sessions

A session takes programs one at a time. Each is compiled to code of its own, and
finds the scope and the constants that earlier ones left, also where one of them
was rejected half-way. Each run starts with an empty stack and the globals that
earlier runs left, also where one of them stopped at an error.
-/

/-- What is carried from one program of a session to the next. -/
structure Session where
  scope : Scope
  constants : Array Value
  globals : Array Value

/-- The compilation of the next unit, after an earlier one. -/
def Compilation.nextUnit (compilation : Compilation) : Compilation :=
  .resume compilation.scope compilation.constants

namespace Session

/-- A session before its first program. -/
def empty : Session where
  scope := .empty
  constants := #[]
  globals := #[]

/-- The compilation that the next program is added to. -/
def compilation (session : Session) : Compilation :=
  .resume session.scope session.constants

/-- The session after a program was compiled or rejected. -/
def afterCompilation
    (session : Session) (compilation : Compilation) : Session :=
  { session with
    scope := compilation.scope
    constants := compilation.constants }

/-- The machine that the next program runs on. -/
def machine (session : Session) : Machine :=
  .withGlobals session.globals

/-- The session after a run that left the machine in the given state. -/
def afterRun (session : Session) (machine : Machine) : Session :=
  { session with globals := machine.globals }

end Session

end StackLang
