import StackLang.Text.DefaultIgnorable
import StackLang.Text.ExtendingMark
import StackLang.Text.Printable

namespace StackLang

/-!
# Quoted text

Quoted text stands between double quotes and shows every character visibly. The
quote, the backslash and four controls have short escapes; any other character
that could not be seen on its own is written as its code point in lower-case
hexadecimal digits.
-/

/-- Whether a character can be seen on its own: it has a visible form, is not
ignorable, and is not drawn as part of the character before it. -/
def isVisible (character : Char) : Bool :=
  isPrintable character && !isDefaultIgnorable character &&
    !isExtendingMark character

/-- The code point of a character between the braces of a numeric escape. -/
def numericEscape (character : Char) : String :=
  "\\u\x7b" ++ String.ofList (Nat.toDigits 16 character.toNat) ++ "\x7d"

/-- How one character is written inside quotes. -/
def quotedForm (character : Char) : String :=
  if character = '\x00' then
    "\\0"
  else if character = '\t' then
    "\\t"
  else if character = '\r' then
    "\\r"
  else if character = '\n' then
    "\\n"
  else if character = '"' then
    "\\\""
  else if character = '\\' then
    "\\\\"
  else if isVisible character then
    character.toString
  else
    numericEscape character

/-- A text in double quotes. -/
def quote (text : String) : String :=
  text.foldl (fun written character => written ++ quotedForm character) "\"" ++
    "\""

end StackLang
