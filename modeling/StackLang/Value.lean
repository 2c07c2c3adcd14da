namespace StackLang

/-!
# Values

What constants, stack entries and global variables hold: a 64-bit integer, a
truth value, or the absence of a value.
-/

/-- A runtime value. -/
inductive Value where
  | int (number : Int64)
  | bool (truth : Bool)
  | null
  deriving DecidableEq

namespace Value

/-- A variable that has no value yet holds `null`. -/
instance : Inhabited Value :=
  ⟨.null⟩

/-- The name of a value's type, as error messages give it. -/
def typeName : Value → String
  | .int _ =>
      "INTEGER"
  | .bool _ =>
      "BOOLEAN"
  | .null =>
      "NULL"

/-- Only `false` and `null` are falsy; every integer is truthy, zero included. -/
def isTruthy : Value → Bool
  | .int _ =>
      true
  | .bool truth =>
      truth
  | .null =>
      false

/-- The text of a value. -/
def render : Value → String
  | .int number =>
      toString number.toInt
  | .bool true =>
      "true"
  | .bool false =>
      "false"
  | .null =>
      "null"

/-- The logical negation of a value is true exactly when the value is falsy. -/
def not (value : Value) : Value :=
  .bool !value.isTruthy

end Value

end StackLang
