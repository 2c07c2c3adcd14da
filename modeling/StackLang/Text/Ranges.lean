namespace StackLang

/-!
# Ranges of code points

A property of characters is kept as an array of closed ranges of code points, in
increasing order and apart from each other. Membership is decided by halving the
part of the array in which a range around the code point can still be.
-/

/-- Closed ranges of code points, each as its first and last member. -/
abbrev CodeRanges :=
  Array (Nat × Nat)

namespace CodeRanges

/-- Whether a range at an index from `low` up to but not including `high`
holds the code point. -/
def containsBetween
    (ranges : CodeRanges) (code low high : Nat) : Bool :=
  if low < high then
    let middle := (low + high) / 2
    match ranges[middle]? with
    | none =>
        false
    | some (first, last) =>
        if code < first then
          ranges.containsBetween code low middle
        else if last < code then
          ranges.containsBetween code (middle + 1) high
        else
          true
  else
    false
termination_by high - low

/-- Whether the ranges hold the code point of a character. -/
def contains (ranges : CodeRanges) (character : Char) : Bool :=
  ranges.containsBetween character.toNat 0 ranges.size

/-- Of sorted ranges, none is empty and each ends before the next one begins. -/
structure Sorted (ranges : CodeRanges) : Prop where
  nonempty :
    ∀ index (bound : index < ranges.size),
      ranges[index].1 ≤ ranges[index].2
  apart :
    ∀ lower upper (_ : lower < upper) (bound : upper < ranges.size),
      ranges[lower].2 < ranges[upper].1

namespace Sorted

variable {ranges : CodeRanges} {code index middle : Nat}

/-- A range that begins at a code point or before it stands left of one that
begins after it. -/
theorem lt_of_begins_after
    (sorted : ranges.Sorted)
    (bound : index < ranges.size) (within : middle < ranges.size)
    (begins : ranges[index].1 ≤ code) (after : code < ranges[middle].1) :
    index < middle := by
  apply Nat.lt_of_not_le
  intro beyond
  rcases Nat.eq_or_lt_of_le beyond with rfl | further
  · exact absurd begins (Nat.not_le_of_lt after)
  · have apart := sorted.apart middle index further bound
    have nonempty := sorted.nonempty middle within
    omega

/-- A range that ends at a code point or after it stands right of one that ends
before it. -/
theorem lt_of_ends_before
    (sorted : ranges.Sorted)
    (bound : index < ranges.size) (within : middle < ranges.size)
    (ends : code ≤ ranges[index].2) (before : ranges[middle].2 < code) :
    middle < index := by
  apply Nat.lt_of_not_le
  intro below
  rcases Nat.eq_or_lt_of_le below with rfl | further
  · exact absurd ends (Nat.not_le_of_lt before)
  · have apart := sorted.apart index middle further within
    have nonempty := sorted.nonempty middle within
    omega

end Sorted

/-- In sorted ranges, the search finds the code point exactly when one of the
ranges searched holds it. -/
theorem containsBetween_iff
    {ranges : CodeRanges} (sorted : ranges.Sorted) (code low high : Nat)
    (inside : high ≤ ranges.size) :
    ranges.containsBetween code low high = true ↔
      ∃ index, ∃ bound : index < high, low ≤ index ∧
        ranges[index].1 ≤ code ∧ code ≤ ranges[index].2 := by
  fun_induction containsBetween ranges code low high with
  | case1 low high searchable middle absent =>
    have := Array.getElem?_eq_none_iff.mp absent
    omega
  | case2 low high searchable middle first last present before
      inductionHypothesis =>
    obtain ⟨within, here⟩ := Array.getElem?_eq_some_iff.mp present
    rw [inductionHypothesis (by omega)]
    constructor
    · rintro ⟨index, bound, rest⟩
      exact ⟨index, by omega, rest⟩
    · rintro ⟨index, bound, above, starts, ends⟩
      have isLeft : index < middle :=
        sorted.lt_of_begins_after (by omega) within starts (by rwa [here])
      exact ⟨index, isLeft, above, starts, ends⟩
  | case3 low high searchable middle first last present _ after
      inductionHypothesis =>
    obtain ⟨within, here⟩ := Array.getElem?_eq_some_iff.mp present
    rw [inductionHypothesis inside]
    constructor
    · rintro ⟨index, bound, above, rest⟩
      exact ⟨index, bound, by omega, rest⟩
    · rintro ⟨index, bound, above, starts, ends⟩
      have isRight : middle < index :=
        sorted.lt_of_ends_before (by omega) within ends (by rwa [here])
      exact ⟨index, bound, isRight, starts, ends⟩
  | case4 low high searchable middle first last present =>
    obtain ⟨within, here⟩ := Array.getElem?_eq_some_iff.mp present
    simp only [true_iff]
    refine ⟨middle, by omega, by omega, ?_⟩
    simp only [here]
    omega
  | case5 low high empty =>
    simp only [Bool.false_eq_true, false_iff]
    rintro ⟨index, bound, above, _⟩
    omega

/-- In sorted ranges, a character is found exactly when a range holds it. -/
theorem contains_iff
    {ranges : CodeRanges} (sorted : ranges.Sorted) (character : Char) :
    ranges.contains character = true ↔
      ∃ range ∈ ranges,
        range.1 ≤ character.toNat ∧ character.toNat ≤ range.2 := by
  rw [contains, containsBetween_iff sorted _ _ _ (Nat.le_refl _)]
  constructor
  · rintro ⟨index, bound, _, holds⟩
    exact ⟨ranges[index], Array.getElem_mem bound, holds⟩
  · rintro ⟨range, member, holds⟩
    obtain ⟨index, bound, rfl⟩ := Array.getElem_of_mem member
    exact ⟨index, bound, Nat.zero_le _, holds⟩

/-- Check that ranges are in order, none below `least`. -/
def isSortedFrom (least : Nat) : List (Nat × Nat) → Bool
  | [] =>
      true
  | (first, last) :: rest =>
      decide (least ≤ first) && decide (first ≤ last) &&
        isSortedFrom (last + 1) rest

/-- Ranges that pass the check are not empty and begin at `least` or later. -/
theorem bounds_of_isSortedFrom
    {least : Nat} {ranges : List (Nat × Nat)}
    (checked : isSortedFrom least ranges = true) :
    ∀ range ∈ ranges, least ≤ range.1 ∧ range.1 ≤ range.2 := by
  induction ranges generalizing least with
  | nil =>
      simp
  | cons head rest inductionHypothesis =>
      obtain ⟨first, last⟩ := head
      simp only [isSortedFrom, Bool.and_eq_true, decide_eq_true_eq] at checked
      intro range member
      rcases List.mem_cons.mp member with rfl | later
      · exact checked.1
      · have bounds := inductionHypothesis checked.2 range later
        omega

/-- Ranges that pass the check are apart. -/
theorem pairwise_of_isSortedFrom
    {least : Nat} {ranges : List (Nat × Nat)}
    (checked : isSortedFrom least ranges = true) :
    ranges.Pairwise (fun lower upper => lower.2 < upper.1) := by
  induction ranges generalizing least with
  | nil =>
      exact List.Pairwise.nil
  | cons head rest inductionHypothesis =>
      obtain ⟨first, last⟩ := head
      simp only [isSortedFrom, Bool.and_eq_true] at checked
      refine List.Pairwise.cons ?_ (inductionHypothesis checked.2)
      intro range later
      exact (bounds_of_isSortedFrom checked.2 range later).1

/-- Ranges that pass the check are sorted. -/
theorem sorted_of_isSortedFrom
    {ranges : CodeRanges} (checked : isSortedFrom 0 ranges.toList = true) :
    ranges.Sorted where
  nonempty index bound :=
    (bounds_of_isSortedFrom checked _ (Array.getElem_mem_toList bound)).2
  apart lower upper below bound := by
    have inOrder := List.pairwise_iff_getElem.mp
      (pairwise_of_isSortedFrom checked) lower upper
    exact inOrder (by simpa using Nat.lt_trans below bound)
      (by simpa using bound) below

end CodeRanges

end StackLang
