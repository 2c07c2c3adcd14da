import StackLang.Code.Basic
import StackLang.Text.Offset

namespace StackLang

/-!
# Listings

A listing walks through code from its start, one instruction after the other.
It ends at the end of the code, or at the first bytes that are no instruction:
where the next instruction would begin is then unknown.
-/

/-- One instruction of a listing and the offset at which it begins. -/
structure Line where
  offset : Nat
  instr : Instr
  deriving DecidableEq

/-- The text of a listed instruction. -/
def Line.render (line : Line) : String :=
  renderOffset line.offset ++ " " ++ line.instr.render

/-- The instructions of some code, and what stopped the walk before its end. -/
structure Listing where
  lines : Array Line
  fault : Option DecodeError
  deriving DecidableEq

/-- The text of a listing: every instruction, then the fault, a line each. -/
def Listing.render (listing : Listing) : String :=
  let text := listing.lines.foldl
    (fun text line => text ++ line.render ++ "\n")
    ""
  match listing.fault with
  | none =>
      text
  | some error =>
      text ++ "ERROR: " ++ error.message ++ "\n"

namespace Code

/-- Continue a listing at an offset, after the lines found so far. -/
def listFrom (code : Code) (offset : Nat) (lines : Array Line) : Listing :=
  match fetched : code.fetch offset with
  | .past =>
      ⟨lines, none⟩
  | .undecodable error =>
      ⟨lines, some error⟩
  | .instr instr next =>
      have _ := lt_size_of_fetch fetched
      have _ := lt_next_of_fetch fetched
      code.listFrom next (lines.push ⟨offset, instr⟩)
termination_by code.size - offset

section Steps

variable {code : Code} {offset : Nat} (lines : Array Line)

/-- A listing ends at the end of the code. -/
theorem listFrom_of_past (past : code.fetch offset = .past) :
    code.listFrom offset lines = ⟨lines, none⟩ := by
  rw [listFrom]
  split <;> simp_all

/-- A listing ends at bytes that are no instruction. -/
theorem listFrom_of_undecodable
    {error : DecodeError} (found : code.fetch offset = .undecodable error) :
    code.listFrom offset lines = ⟨lines, some error⟩ := by
  rw [listFrom]
  split <;> simp_all

/-- A listing goes on behind an instruction. -/
theorem listFrom_of_instr
    {instr : Instr} {next : Nat}
    (fetched : code.fetch offset = .instr instr next) :
    code.listFrom offset lines =
      code.listFrom next (lines.push ⟨offset, instr⟩) := by
  rw [listFrom]
  split <;> simp_all

end Steps

/-- The listing of some code. -/
def listing (code : Code) : Listing :=
  code.listFrom 0 #[]

/-- The text of the code's listing. -/
def disassemble (code : Code) : String :=
  code.listing.render

end Code

end StackLang
