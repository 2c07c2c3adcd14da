namespace StackLang

/-!
# Written offsets

Listings and log lines write a byte offset in decimal, filled up with zeros on
the left to four digits. An offset of 10000 or more keeps all its digits.
-/

/-- The least number of digits of a written offset. -/
def offsetDigits : Nat :=
  4

/-- The decimal text of an offset, at least `offsetDigits` digits long. -/
def renderOffset (offset : Nat) : String :=
  let digits := toString offset
  "".pushn '0' (offsetDigits - digits.length) ++ digits

end StackLang
