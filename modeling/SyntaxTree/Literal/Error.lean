/-
# Faults in literals

What can be wrong with the text of a number or a string, and the words for it.  The text
that a message quotes is the offending text read as UTF-8, ill-formed pieces replaced.
-/
import SyntaxTree.Bytes.Hex
import SyntaxTree.Decimal.Whole

namespace SyntaxTree

/-- A fault in the text of a literal. -/
inductive LiteralError where
  /-- A text without a single digit of its base. -/
  | notAnInteger (text : String)
  /-- An integer of more than 128 bits. -/
  | integerOverflow (text : String)
  /-- A text that does not start with a real number. -/
  | notAReal (text : String)
  /-- A number that rounds past the largest double. -/
  | realOverflow (text : String)
  /-- A number other than zero that rounds to zero. -/
  | realUnderflow (text : String)
  /-- A byte in the place of a hexadecimal digit. -/
  | badHexDigit (found : UInt8)
  /-- A text that ends inside an escape. -/
  | truncatedEscape (expected : Nat)
  /-- A code point of more than 31 bits. -/
  | badCodePoint (codePoint : Nat)
  /-- A base without an alphabet. -/
  | unsupportedBase (base : Nat)
  deriving DecidableEq, Repr

namespace LiteralError

/-- A byte as it is shown in a message: printable ASCII as itself, quotes and backslash with
a backslash, the common controls by letter, and all else by its two hexadecimal digits. -/
def shownByte (b : UInt8) : String :=
  if b = 0x09 then "\\t"
  else if b = 0x0D then "\\r"
  else if b = 0x0A then "\\n"
  else if b = 0x27 then "\\'"
  else if b = 0x22 then "\\\""
  else if b = 0x5C then "\\\\"
  else if 0x20 ≤ b ∧ b ≤ 0x7E then String.ofList [Char.ofNat b.toNat]
  else "\\x" ++ Hex.ofBytes [b]

/-- The words for a fault. -/
def message : LiteralError → String
  | notAnInteger text => "could not convert int value '" ++ text ++ "'"
  | integerOverflow text => "overflow of integer literal '" ++ text ++ "'"
  | notAReal text => "could not convert real value '" ++ text ++ "'"
  | realOverflow text => "could not convert real value '" ++ text ++ "', overflow"
  | realUnderflow text => "could not convert real value '" ++ text ++ "', underflow"
  | badHexDigit found => "could not decode hex escape character '" ++ shownByte found ++ "'"
  | truncatedEscape expected =>
    "escape sequence ends before its " ++ Decimal.text expected ++ " hex digits"
  | badCodePoint codePoint =>
    "code point 0x" ++ String.ofList (Hex.digits codePoint) ++ " can not be encoded as UTF-8"
  | unsupportedBase base =>
    "integer base " ++ Decimal.text base ++ " is not supported, the maximum is 64"

end LiteralError
end SyntaxTree
