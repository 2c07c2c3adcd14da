import Std.Data.HashMap

namespace StackLang

/-!
# Scope

There is one flat scope of global variables. Every definition takes the next
unused slot, counted from zero, and a name denotes the slot of its latest
definition. Slots are never given back.
-/

/-- A name that is defined, and the slot that it denotes. -/
structure Symbol where
  name : String
  slot : Nat
  deriving DecidableEq

/-- The names defined so far. -/
structure Scope where
  /-- The symbol of each defined name. -/
  symbols : Std.HashMap String Symbol
  /-- The number of definitions so far, which is also the next unused slot. -/
  count : Nat

namespace Scope

/-- The scope without any definition. -/
def empty : Scope where
  symbols := ∅
  count := 0

/-- Let a name denote the next unused slot, and give its symbol. -/
def declare (name : String) : StateM Scope Symbol := do
  let symbol : Symbol := ⟨name, (← get).count⟩
  modify fun scope =>
    { symbols := scope.symbols.insert name symbol
      count := scope.count + 1 }
  return symbol

/-- The scope in which a name denotes the next unused slot. -/
def define (scope : Scope) (name : String) : Scope :=
  ((declare name).run scope).2

/-- The symbol of a name, if it is defined. -/
def symbol? (scope : Scope) (name : String) : Option Symbol :=
  scope.symbols[name]?

/-- The slot that a name denotes, if it is defined. -/
def resolve? (scope : Scope) (name : String) : Option Nat :=
  (scope.symbol? name).map Symbol.slot

/-- Nothing is defined in the empty scope. -/
@[simp] theorem symbol?_empty (name : String) :
    empty.symbol? name = none := by
  simp [empty, symbol?]

/-- A definition changes the symbol of its own name, and of no other. -/
theorem symbol?_define (scope : Scope) (name other : String) :
    (scope.define name).symbol? other =
      if name = other then
        some ⟨name, scope.count⟩
      else
        scope.symbol? other := by
  have inserted :
      (scope.define name).symbols =
        scope.symbols.insert name ⟨name, scope.count⟩ :=
    rfl
  simp [symbol?, inserted, Std.HashMap.getElem?_insert]

/-- No name denotes a slot in the empty scope. -/
@[simp] theorem resolve?_empty (name : String) :
    empty.resolve? name = none := by
  simp [resolve?]

/-- A definition changes what its own name denotes, and no other name. -/
theorem resolve?_define (scope : Scope) (name other : String) :
    (scope.define name).resolve? other =
      if name = other then some scope.count else scope.resolve? other := by
  rw [resolve?, symbol?_define]
  split <;> rfl

/-- Every definition takes one slot, a repeated one as well. -/
@[simp] theorem count_define (scope : Scope) (name : String) :
    (scope.define name).count = scope.count + 1 :=
  rfl

/-- Define names in their order. -/
def defineAll (scope : Scope) (names : List String) : Scope :=
  names.foldl define scope

end Scope

end StackLang
