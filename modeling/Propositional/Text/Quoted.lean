import Propositional.Text.Character
import Propositional.Text.Unprintable
import Propositional.Text.GraphemeExtend

/-!
# Quoted text

How messages quote a text or a single character: between two marks, with everything that could be
misread written as an escape. The mark itself and the backslash get a backslash; tab, line feed,
carriage return and NUL have letters of their own; whatever is not shown, or would attach to its
neighbour, is written by its number in hexadecimal.
-/

namespace Propositional.Text

/-- Whether a character stands for itself on a page: it has a shape, and one of its own. -/
def isShown (c : Char) : Bool :=
  (0x20 ≤ c.toNat && c.toNat < 0x7F) ||
    !(inRanges unprintableRanges c.toNat || inRanges graphemeExtendRanges c.toNat)

/-- A character by its number, in lower case hexadecimal without leading zeros. -/
def numbered (c : Char) : List Char :=
  "\\u\x7b".toList ++ Nat.toDigits 16 c.toNat ++ "\x7d".toList

/-- One character as it is written between two quotation marks `mark`. -/
def escape (mark c : Char) : List Char :=
  if c = mark ∨ c = '\\' then ['\\', c]
  else if c = '\t' then ['\\', 't']
  else if c = '\n' then ['\\', 'n']
  else if c = '\r' then ['\\', 'r']
  else if c.toNat = 0 then ['\\', '0']
  else if isShown c then [c]
  else numbered c

/-- A text between two quotation marks. -/
def enclose (mark : Char) (cs : List Char) : String :=
  String.ofList (mark :: cs.flatMap (escape mark) ++ [mark])

/-- A text in double quotes. -/
def quoted (s : String) : String :=
  enclose '"' s.toList

/-- A character in single quotes. -/
def quotedChar (c : Char) : String :=
  enclose '\'' [c]

end Propositional.Text
