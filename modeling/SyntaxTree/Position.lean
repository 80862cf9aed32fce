/-
# Source positions

A position names a file by its index in the file table, and a line and a column counted
from one.  Each of the three may be unknown; a file may also be one the table had no room
for.

`earliest` picks the position of a merged node from those of its parts: the first part with
a known file decides the file, and among the parts in that file the earliest wins.
-/
import SyntaxTree.Decimal.Whole

namespace SyntaxTree

/-! ## 1. Positions -/

/-- A file, line and column. -/
structure Position where
  file : UInt32
  line : UInt32
  column : UInt32
  deriving DecidableEq, Repr, Inhabited

namespace Position

/-- The number that stands for an unknown file, line or column. -/
def unknownNumber : UInt32 := 0xFFFFFFFF

/-- The file index of a file that the full table could not hold. -/
def tableFull : UInt32 := 0xFFFFFFFE

/-- The position of which nothing is known. -/
def unknown : Position := ⟨unknownNumber, unknownNumber, unknownNumber⟩

/-- Whether the file index names an entry of a file table. -/
def hasFile (p : Position) : Bool := p.file != unknownNumber && p.file != tableFull

/-- Whether nothing at all is known. -/
def isUnknown (p : Position) : Bool := p == unknown

/-- Whether `p` stands strictly before `q` in one file. -/
def precedes (p q : Position) : Bool :=
  p.file == q.file && (p.line < q.line || (p.line == q.line && p.column < q.column))

/-- Line and column as text, with `?` for an unknown one. -/
def text (p : Position) : String :=
  if p.line = unknownNumber then "?:?"
  else if p.column = unknownNumber then Decimal.text p.line.toNat ++ ":?"
  else Decimal.text p.line.toNat ++ ":" ++ Decimal.text p.column.toNat

/-! ## 2. The earliest of several positions -/

/-- Takes one more position into account. -/
def earlier (best : Option Position) (p : Position) : Option Position :=
  if p.hasFile then
    match best with
    | none => some p
    | some current => if p.precedes current then some p else some current
  else best

/-- The earliest position in the file of the first position that has one. -/
def earliest (positions : List Position) : Option Position :=
  positions.foldl earlier none

end Position
end SyntaxTree
