/-
# Doubles

A double is kept as its 64 bits.  `ofRatio` rounds a quotient of whole numbers to the nearest
double, ties to even, and `ofDecimal` does so for a whole number times a power of ten.

The rounding works on the bit pattern of the magnitude, which grows with the value: the
quotient is cut to a multiple of its quantum, and a carry out of the significand runs into
the exponent by itself.
-/
namespace SyntaxTree

/-! ## 1. Bits -/

/-- A double by its bits. -/
structure Binary64 where
  bits : UInt64
  deriving DecidableEq, Repr

namespace Binary64

/-- The bit pattern of positive infinity. -/
def infinityBits : Nat := 0x7FF0000000000000

/-- The bit pattern of the standard quiet NaN without its sign. -/
def nanBits : Nat := 0x7FF8000000000000

/-- The bit of the sign, the highest of all. -/
def signBit : Nat := 0x8000000000000000

/-- The bit above the stored bits of a significand.  Exponents count in steps of it. -/
def leadingBit : Nat := 0x10000000000000

/-- The double with a sign and the bits of a magnitude. -/
def ofMagnitude (negative : Bool) (magnitude : Nat) : Binary64 :=
  ⟨UInt64.ofNat ((if negative then signBit else 0) + magnitude)⟩

/-- The bits without the sign. -/
def magnitude (x : Binary64) : Nat := x.bits.toNat % signBit

/-- Whether the sign bit is set. -/
def isNegative (x : Binary64) : Bool := signBit ≤ x.bits.toNat

/-- Whether it is no number. -/
def isNaN (x : Binary64) : Bool := infinityBits < x.magnitude

/-- Whether it is one of the two infinities. -/
def isInfinite (x : Binary64) : Bool := x.magnitude == infinityBits

/-- Whether it is zero, of either sign. -/
def isZero (x : Binary64) : Bool := x.magnitude == 0

/-- The whole number `m` such that a finite double is `m * 2 ^ exponent`. -/
def significand (x : Binary64) : Nat :=
  if x.magnitude < leadingBit then x.magnitude else leadingBit + x.magnitude % leadingBit

/-- The exponent of the quantum of a finite double. -/
def exponent (x : Binary64) : Int :=
  if x.magnitude < leadingBit then -1074 else (x.magnitude / leadingBit : Nat) - 1075

/-! ## 2. Rounding -/

/-- The whole number nearest to a quotient, the even one of two. -/
def roundHalfEven (num den : Nat) : Nat :=
  let below := num / den
  let rest := num % den
  if 2 * rest < den ∨ (2 * rest = den ∧ below % 2 = 0) then below else below + 1

/-- Whether a quotient is at least a power of two. -/
def atLeastPow (num den : Nat) (power : Int) : Bool :=
  if 0 ≤ power then den <<< power.toNat ≤ num else den ≤ num <<< (-power).toNat

/-- The largest power of two that a positive quotient reaches. -/
def floorLog2 (num den : Nat) : Int :=
  let guess : Int := (Nat.log2 num : Int) - Nat.log2 den
  if atLeastPow num den guess then guess else guess - 1

/-- The bits of the magnitude nearest to a quotient. -/
def roundMagnitude (num den : Nat) : Nat :=
  if num = 0 then 0
  else
    let power := max (floorLog2 num den) (-1022)
    let quantum := power - 52
    let significand :=
      if 0 ≤ quantum then roundHalfEven num (den <<< quantum.toNat)
      else roundHalfEven (num <<< (-quantum).toNat) den
    min ((power + 1022).toNat * leadingBit + significand) infinityBits

/-- The double nearest to a quotient with a sign. -/
def ofRatio (negative : Bool) (num den : Nat) : Binary64 :=
  ofMagnitude negative (roundMagnitude num den)

/-- The double nearest to `mantissa * 10 ^ power` with a sign.  Powers far beyond either end
of the range are settled by size alone. -/
def ofDecimal (negative : Bool) (mantissa : Nat) (power : Int) : Binary64 :=
  if mantissa = 0 then ofMagnitude negative 0
  else if 0 ≤ power then
    if 310 < power then ofMagnitude negative infinityBits
    else ofRatio negative (mantissa * Nat.pow 10 power.toNat) 1
  else
    let places := (-power).toNat
    if Nat.log2 mantissa + 1077 < 3 * places then ofMagnitude negative 0
    else ofRatio negative mantissa (Nat.pow 10 places)

end Binary64
end SyntaxTree
