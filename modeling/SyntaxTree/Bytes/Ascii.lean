/-
# ASCII bytes

Bytes named by their characters, and ranges of them.
-/
namespace SyntaxTree
namespace Ascii

/-- The byte of an ASCII character. -/
def byte (c : Char) : UInt8 := UInt8.ofNat c.toNat

/-- Whether a byte lies between two ASCII characters, both included. -/
def between (low high : Char) (b : UInt8) : Bool := byte low ≤ b && b ≤ byte high

/-- Whether a byte is one of the ten digits. -/
def isDigit (b : UInt8) : Bool := between '0' '9' b

/-- Whether a byte is a space, a tab, a line feed, a form feed or a carriage return. -/
def isBlank (b : UInt8) : Bool :=
  b == 0x20 || b == 0x09 || b == 0x0A || b == 0x0C || b == 0x0D

end Ascii
end SyntaxTree
