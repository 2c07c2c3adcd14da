import StackLang.Proofs.Compilation.Slots
import StackLang.Proofs.Program.Evaluation

namespace StackLang

/-!
# Names and slots

Names that are defined one after another take slots in this order, and a name
denotes the slot of its latest definition. The scope of a compilation agrees
with this, so what a name denotes can be read off the list of names alone.
-/

section LatestSlot

variable {bound : List String} {name : String} {slot : Nat}

/-- A name has no slot exactly when it is not defined. -/
theorem latestSlot?_eq_none_iff :
    latestSlot? bound name = none ↔ name ∉ bound := by
  induction bound with
  | nil =>
      simp [latestSlot?]
  | cons first rest inductionHypothesis =>
      cases inRest : latestSlot? rest name with
      | none =>
          have absent := inductionHypothesis.mp inRest
          by_cases isFirst : first = name
          · simp [latestSlot?, inRest, isFirst]
          · simp [latestSlot?, inRest, isFirst, absent, Ne.symm isFirst]
      | some slot =>
          have member : name ∈ rest := by
            simpa [inRest] using inductionHypothesis
          simp [latestSlot?, inRest, member]

/-- The latest slot of a name is the place of its last occurrence. -/
theorem latestSlot?_append_cons
    {earlier later : List String} (absent : name ∉ later) :
    latestSlot? (earlier ++ name :: later) name = some earlier.length := by
  induction earlier with
  | nil =>
      simp [latestSlot?, latestSlot?_eq_none_iff.mpr absent]
  | cons first rest inductionHypothesis =>
      simp [latestSlot?, inductionHypothesis]

/-- A defined name has a last occurrence. -/
theorem exists_last_of_mem (member : name ∈ bound) :
    ∃ earlier later, bound = earlier ++ name :: later ∧ name ∉ later := by
  induction bound with
  | nil =>
      cases member
  | cons first rest inductionHypothesis =>
      by_cases inRest : name ∈ rest
      · obtain ⟨earlier, later, rfl, absent⟩ := inductionHypothesis inRest
        exact ⟨first :: earlier, later, rfl, absent⟩
      · rcases List.mem_cons.mp member with rfl | inRest'
        · exact ⟨[], rest, rfl, inRest⟩
        · exact (inRest inRest').elim

/-- A name that has a slot was defined at this place, and not again. -/
theorem exists_last_of_latestSlot?
    (found : latestSlot? bound name = some slot) :
    ∃ earlier later,
      bound = earlier ++ name :: later ∧ name ∉ later ∧
        slot = earlier.length := by
  have member : name ∈ bound := by
    refine Decidable.byContradiction fun absent => ?_
    rw [latestSlot?_eq_none_iff.mpr absent] at found
    cases found
  obtain ⟨earlier, later, rfl, absent⟩ := exists_last_of_mem member
  rw [latestSlot?_append_cons absent] at found
  exact ⟨earlier, later, rfl, absent, (Option.some.inj found).symm⟩

/-- A name that has a slot has one of those that are taken. -/
theorem latestSlot?_lt (found : latestSlot? bound name = some slot) :
    slot < bound.length := by
  obtain ⟨earlier, later, rfl, _, rfl⟩ := exists_last_of_latestSlot? found
  simp

end LatestSlot

/-- The symbol of a name is that of its latest definition, with slots counted
from those that are taken before. -/
theorem Scope.symbol?_defineAll
    (scope : Scope) (names : List String) (name : String) :
    (scope.defineAll names).symbol? name =
      match latestSlot? names name with
      | some slot =>
          some ⟨name, scope.count + slot⟩
      | none =>
          scope.symbol? name := by
  induction names generalizing scope with
  | nil =>
      rfl
  | cons first rest inductionHypothesis =>
      have tail := inductionHypothesis (scope.define first)
      rw [count_define, symbol?_define] at tail
      rw [latestSlot?]
      cases later : latestSlot? rest name with
      | some slot =>
          rw [later] at tail
          apply tail.trans
          simp [Nat.add_comm slot, Nat.add_assoc]
      | none =>
          rw [later] at tail
          apply tail.trans
          by_cases same : first = name
          · simp [same]
          · simp [same]

/-- A name denotes the slot of its latest definition, counted from the slots
that are taken before. -/
theorem Scope.resolve?_defineAll
    (scope : Scope) (names : List String) (name : String) :
    (scope.defineAll names).resolve? name =
      match latestSlot? names name with
      | some slot =>
          some (scope.count + slot)
      | none =>
          scope.resolve? name := by
  rw [resolve?, symbol?_defineAll]
  cases latestSlot? names name <;> rfl

/-- The names of a scope that was built from nothing denote their latest
slots. -/
theorem Scope.resolve?_bound (bound : List String) (name : String) :
    (Scope.empty.defineAll bound).resolve? name = latestSlot? bound name := by
  rw [resolve?_defineAll, resolve?_empty]
  cases latestSlot? bound name with
  | none =>
      rfl
  | some slot =>
      simp [empty]

/-- A numbering after the bound names were defined in a scope without any. -/
def Numbering.Binds (numbering : Numbering) (bound : List String) : Prop :=
  numbering.scope = Scope.empty.defineAll bound

theorem Numbering.Binds.advance
    {numbering : Numbering} {bound : List String}
    (binds : numbering.Binds bound)
    (literals : List Int64) (lets : List String) :
    (numbering.advance literals lets).Binds (bound ++ lets) := by
  rw [Binds, Numbering.advance, binds, Scope.defineAll, Scope.defineAll,
    Scope.defineAll, List.foldl_append]

theorem Numbering.Binds.count
    {numbering : Numbering} {bound : List String}
    (binds : numbering.Binds bound) :
    numbering.scope.count = bound.length := by
  rw [binds, Scope.count_defineAll]
  exact Nat.zero_add _

end StackLang
