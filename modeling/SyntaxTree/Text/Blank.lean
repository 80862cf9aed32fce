/-
# Blanks

The characters with the Unicode property White_Space.  They separate the parts of a line
directive and may stand in front of a real number.
-/
import SyntaxTree.Text.CodePointSet

namespace SyntaxTree

/-- The White_Space property. -/
def CodePointSet.blank : CodePointSet where
  ranges := [
    (0x9, 0xD), (0x20, 0x20), (0x85, 0x85), (0xA0, 0xA0), (0x1680, 0x1680), (0x2000, 0x200A),
    (0x2028, 0x2029), (0x202F, 0x202F), (0x205F, 0x205F), (0x3000, 0x3000)]

/-- Whether a character is white space. -/
def isBlank (c : Char) : Bool := CodePointSet.blank.contains c

/-- `cs` without the blanks it starts with. -/
def dropBlanks (cs : List Char) : List Char := cs.dropWhile isBlank

/-- `cs` without the blanks it ends with. -/
def dropBlanksEnd (cs : List Char) : List Char := (cs.reverse.dropWhile isBlank).reverse

end SyntaxTree
