import StackLang.Code.Basic
import StackLang.Value

namespace StackLang

/-!
# Bytecode

A compiled unit: its code, and the pool of constants that the code refers to by
index.
-/

/-- Code with its constants. -/
structure Bytecode where
  code : Code := .empty
  constants : Array Value := #[]
  deriving DecidableEq

/-- A unit is empty when it has no code, even if it has constants. -/
def Bytecode.isEmpty (bytecode : Bytecode) : Bool :=
  bytecode.code.isEmpty

end StackLang
