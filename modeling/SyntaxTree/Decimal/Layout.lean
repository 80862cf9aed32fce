/-
# Text of doubles

A double is written with the fewest digits that read back.  Numbers of middling size are
written positionally, with at least one place, the others with an exponent.  Formats differ
only in the fields of `FloatLayout`.
-/
import SyntaxTree.Decimal.Shortest
import SyntaxTree.Decimal.Whole

namespace SyntaxTree

/-- The choices of a format for doubles. -/
structure FloatLayout where
  /-- Positional from this power of ten on. -/
  positionalFrom : Int
  /-- Positional below this power of ten. -/
  positionalBelow : Int
  /-- Whether a positive exponent has a sign. -/
  plusSign : Bool
  /-- Which of two equally near decimals is taken. -/
  tie : Decimal.Tie
  nan : String
  infinity : String
  negativeInfinity : String

namespace FloatLayout

/-- Digits with a point, for a number whose first digit has the given power of ten. -/
def positional (digits : List Char) (power : Int) : List Char :=
  if power < 0 then
    ['0', '.'] ++ List.replicate ((-power).toNat - 1) '0' ++ digits
  else
    let whole := power.toNat + 1
    if digits.length ≤ whole then
      digits ++ List.replicate (whole - digits.length) '0' ++ ['.', '0']
    else digits.take whole ++ ['.'] ++ digits.drop whole

/-- Digits with an exponent. -/
def scientific (layout : FloatLayout) (digits : List Char) (power : Int) : List Char :=
  let mantissa :=
    match digits with
    | [] => []
    | [first] => [first]
    | first :: rest => first :: '.' :: rest
  let sign := if power < 0 then ['-'] else if layout.plusSign then ['+'] else []
  mantissa ++ ['e'] ++ sign ++ Decimal.digits power.natAbs

/-- The text of a positive finite double. -/
def positive (layout : FloatLayout) (x : Binary64) : List Char :=
  let decimal := Decimal.shortest layout.tie x
  let digits := Decimal.digits decimal.digits
  let power := decimal.power + (digits.length - 1 : Nat)
  if layout.positionalFrom ≤ power ∧ power < layout.positionalBelow then
    positional digits power
  else layout.scientific digits power

/-- The text of a double. -/
def text (layout : FloatLayout) (x : Binary64) : String :=
  if x.isNaN then layout.nan
  else if x.isInfinite then
    if x.isNegative then layout.negativeInfinity else layout.infinity
  else
    let unsigned := if x.isZero then ['0', '.', '0'] else layout.positive x
    String.ofList (if x.isNegative then '-' :: unsigned else unsigned)

end FloatLayout
end SyntaxTree
