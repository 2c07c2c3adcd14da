import StackLang.Proofs.Compilation.Names

namespace StackLang

/-!
# Histories of definitions

A scope that was built from nothing by definitions is what their list of names
says: a name has the symbol of its last place in the list, and the slots are the
places. So the counter of the scope never falls behind the slots in its map.
-/

/-- What definitions of names, one after another, have answered, and the scope
that they have left. -/
structure Scope.Remembers
    (scope : Scope) (names : List String) (answers : List Symbol) : Prop where
  /-- Every definition has taken one slot. -/
  count : scope.count = names.length
  /-- Each definition has answered its name with the number of those before. -/
  answers : answers = names.mapIdx fun slot name => ⟨name, slot⟩
  undefined : ∀ name, scope.symbol? name = none ↔ name ∉ names
  /-- A name has the symbol of its last definition. -/
  latest :
    ∀ name symbol,
      scope.symbol? name = some symbol ↔
        ∃ earlier later,
          names = earlier ++ name :: later ∧ name ∉ later ∧
            symbol = ⟨name, earlier.length⟩
  distinct :
    ∀ name other slot,
      scope.resolve? name = some slot → scope.resolve? other = some slot →
        name = other
  bounded :
    ∀ name slot, scope.resolve? name = some slot → slot < scope.count
  /-- One more definition leaves the symbols of all other names. -/
  others :
    ∀ name other, other ≠ name →
      (scope.define name).symbol? other = scope.symbol? other

namespace Scope

/-- Definitions one after another answer with the slots from the first unused
one on. -/
theorem run_mapM_declare (scope : Scope) (names : List String) :
    (names.mapM declare).run scope =
      (names.mapIdx fun place name => ⟨name, scope.count + place⟩,
        scope.defineAll names) := by
  induction names generalizing scope with
  | nil =>
      rfl
  | cons name rest inductionHypothesis =>
      have tail := inductionHypothesis (scope.define name)
      have step :
          ((name :: rest).mapM declare).run scope =
            (⟨name, scope.count⟩ ::
                ((rest.mapM declare).run (scope.define name)).1,
              ((rest.mapM declare).run (scope.define name)).2) := by
        rw [List.mapM_cons]
        rfl
      simp only [step, tail, count_define, List.mapIdx_cons, Nat.add_assoc,
        Nat.add_comm 1]
      rfl

/-- The symbol of a name is the name with the slot of its last definition. -/
theorem symbol?_bound (bound : List String) (name : String) :
    (empty.defineAll bound).symbol? name =
      (latestSlot? bound name).map (Symbol.mk name) := by
  rw [symbol?_defineAll, symbol?_empty]
  cases latestSlot? bound name with
  | none =>
      rfl
  | some slot =>
      simp [empty]

end Scope

/-- A slot belongs to one name at most, whose last definition took it. -/
theorem eq_of_latestSlot?_eq
    {bound : List String} {name other : String} {slot : Nat}
    (found : latestSlot? bound name = some slot)
    (otherFound : latestSlot? bound other = some slot) :
    name = other := by
  obtain ⟨earlier, later, split, _, rfl⟩ := exists_last_of_latestSlot? found
  obtain ⟨otherEarlier, otherLater, otherSplit, _, sameLength⟩ :=
    exists_last_of_latestSlot? otherFound
  have samePlace :=
    (List.append_inj (split.symm.trans otherSplit) sameLength).2
  exact (List.cons.inj samePlace).1

/-- Whatever names are defined in a fresh scope, and however often, the answers
and the scope are what the list of the names says. -/
theorem scope_remembers_definitions (names : List String) :
    ((names.mapM Scope.declare).run .empty).2.Remembers names
      ((names.mapM Scope.declare).run .empty).1 := by
  rw [Scope.run_mapM_declare]
  constructor
  case count =>
    rw [Scope.count_defineAll]
    exact Nat.zero_add _
  case answers =>
    simp [Scope.empty]
  case undefined =>
    intro name
    rw [Scope.symbol?_bound, Option.map_eq_none_iff, latestSlot?_eq_none_iff]
  case latest =>
    intro name symbol
    rw [Scope.symbol?_bound, Option.map_eq_some_iff]
    constructor
    case mp =>
      rintro ⟨slot, found, rfl⟩
      obtain ⟨earlier, later, split, last, rfl⟩ :=
        exists_last_of_latestSlot? found
      exact ⟨earlier, later, split, last, rfl⟩
    case mpr =>
      rintro ⟨earlier, later, rfl, last, rfl⟩
      exact ⟨_, latestSlot?_append_cons last, rfl⟩
  case distinct =>
    intro name other slot found otherFound
    rw [Scope.resolve?_bound] at found otherFound
    exact eq_of_latestSlot?_eq found otherFound
  case bounded =>
    exact Scope.bounded_empty.defineAll names
  case others =>
    intro name other different
    rw [Scope.symbol?_define, if_neg different.symm]

/-- A name that is defined again denotes its new slot, and another one still its
own. -/
example :
    let scope := Scope.empty.defineAll ["x", "y", "x"]
    scope.symbol? "x" = some ⟨"x", 2⟩ ∧
      scope.symbol? "y" = some ⟨"y", 1⟩ ∧
      scope.symbol? "z" = none := by
  cbv

end StackLang
