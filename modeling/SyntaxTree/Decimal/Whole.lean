/-
# Decimal text of whole numbers

`digits n` is the decimal spelling of `n` without leading zeros, most significant digit
first.  `value` reads a run of decimal digits back.
-/
namespace SyntaxTree
namespace Decimal

/-- The character of a digit below ten. -/
def digit (n : Nat) : Char := Char.ofNat (48 + n)

/-- The decimal digits of `n`, without leading zeros; zero is one digit. -/
def digits (n : Nat) : List Char :=
  if n < 10 then [digit n] else digits (n / 10) ++ [digit (n % 10)]
termination_by n

/-- The decimal text of `n`. -/
def text (n : Nat) : String := String.ofList (digits n)

/-- Whether a character is one of the ten ASCII digits. -/
def isDigit (c : Char) : Bool := '0' ≤ c && c ≤ '9'

/-- The number a run of ASCII digits spells in base ten. -/
def value (ds : List Char) : Nat :=
  ds.foldl (fun n c => n * 10 + (c.toNat - 48)) 0

end Decimal
end SyntaxTree
