import StackLang.Text.Ranges

namespace StackLang

/-!
# Ignorable characters

A character with the property Default_Ignorable_Code_Point shows nothing where
it is not supported. Most of them are marks, format characters or unassigned;
the fillers of Hangul syllables are letters. The ranges follow version 17.0 of
the Unicode character database.
-/

/-- The code points that are ignorable by default. -/
def defaultIgnorableRanges : CodeRanges :=
  #[(0x00AD, 0x00AD), (0x034F, 0x034F), (0x061C, 0x061C), (0x115F, 0x1160), (0x17B4, 0x17B5),
    (0x180B, 0x180F), (0x200B, 0x200F), (0x202A, 0x202E), (0x2060, 0x206F), (0x3164, 0x3164),
    (0xFE00, 0xFE0F), (0xFEFF, 0xFEFF), (0xFFA0, 0xFFA0), (0xFFF0, 0xFFF8), (0x1BCA0, 0x1BCA3),
    (0x1D173, 0x1D17A), (0xE0000, 0xE0FFF)]

/-- The table is in the order that the search needs. -/
theorem defaultIgnorableRanges_sorted : defaultIgnorableRanges.Sorted :=
  CodeRanges.sorted_of_isSortedFrom (by decide +kernel)

/-- Whether a character shows nothing where it is not supported. -/
def isDefaultIgnorable (character : Char) : Bool :=
  defaultIgnorableRanges.contains character

end StackLang
