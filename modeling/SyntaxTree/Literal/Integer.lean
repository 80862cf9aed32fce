/-
# Integer literals

Digits of any base up to 64 are read from one of three alphabets, and every other byte is
skipped, so that `1_000` is one thousand.  The magnitude may take 128 bits.

`signedInteger` reads the usual spelling with a sign and a letter for the base.  An integer
is stored in eight bytes when it fits and in sixteen otherwise.
-/
import SyntaxTree.Bytes.Ascii
import SyntaxTree.Bytes.BigEndian
import SyntaxTree.Kind
import SyntaxTree.Literal.Error
import SyntaxTree.Text.Lossy

namespace SyntaxTree

/-! ## 1. Digits -/

/-- The bytes that can be digits, with their values. -/
inductive Alphabet where
  /-- `0`-`9`, then letters in either case. -/
  | extendedHex
  /-- Letters in either case, then `2`-`7`. -/
  | base32
  /-- Capital letters, small letters, `0`-`9`, `+` and `/`. -/
  | base64
  deriving DecidableEq, Repr

namespace Alphabet

/-- The alphabet of a base: base 32 and the bases from 37 to 64 have their own. -/
def ofBase (base : Nat) : Alphabet :=
  if base = 32 then base32
  else if 37 ≤ base ∧ base ≤ 64 then base64
  else extendedHex

/-- The value of a byte in an alphabet. -/
def value? : Alphabet → UInt8 → Option Nat
  | extendedHex, c =>
    if Ascii.between '0' '9' c then some (c.toNat - 48)
    else if Ascii.between 'A' 'Z' c then some (c.toNat - 65 + 10)
    else if Ascii.between 'a' 'z' c then some (c.toNat - 97 + 10)
    else none
  | base32, c =>
    if Ascii.between 'A' 'Z' c then some (c.toNat - 65)
    else if Ascii.between 'a' 'z' c then some (c.toNat - 97)
    else if Ascii.between '2' '7' c then some (c.toNat - 50 + 26)
    else none
  | base64, c =>
    if Ascii.between 'A' 'Z' c then some (c.toNat - 65)
    else if Ascii.between 'a' 'z' c then some (c.toNat - 97 + 26)
    else if Ascii.between '0' '9' c then some (c.toNat - 48 + 52)
    else if c = Ascii.byte '+' then some 62
    else if c = Ascii.byte '/' then some 63
    else none

end Alphabet

namespace Literal

/-- The largest base. -/
def maxBase : Nat := 64

/-- The value of a byte as a digit of a base: its value in the alphabet of the base, if that
lies below the base. -/
def digitValue? (base : Nat) (c : UInt8) : Option Nat :=
  ((Alphabet.ofBase base).value? c).filter (· < base)

/-! ## 2. Magnitudes -/

/-- No magnitude reaches this bound: there are two words for it. -/
def integerBound : Nat := UInt64.size * UInt64.size

/-- Reads digits from the left.  `total` is the magnitude so far, once there was a digit;
the reading stops with `none` as soon as a magnitude reaches the bound. -/
def accumulate (base : Nat) : List UInt8 → Option Nat → Option (Option Nat)
  | [], total => some total
  | c :: rest, total =>
    match digitValue? base c with
    | none => accumulate base rest total
    | some digit =>
      let next := total.getD 0 * base + digit
      if next < integerBound then accumulate base rest (some next) else none

/-- The magnitude that the digits of `base` in a text spell. -/
def integer (base : Nat) (digits : List UInt8) : Except LiteralError Nat :=
  if maxBase < base then .error (.unsupportedBase base)
  else
    match accumulate base digits none with
    | none => .error (.integerOverflow (Lossy.text digits))
    | some none => .error (.notAnInteger (Lossy.text digits))
    | some (some magnitude) => .ok magnitude

/-- The bytes of a magnitude: eight if it fits, else sixteen. -/
def integerPayload (magnitude : Nat) : List UInt8 :=
  if magnitude < UInt64.size then BigEndian.encode 8 magnitude else BigEndian.encode 16 magnitude

/-! ## 3. Signs and bases -/

/-- The sign of an integer.  It is kept in the kind of the node, not in its data. -/
inductive Sign where
  | positive
  | negative
  deriving DecidableEq, Repr

/-- The kind of node that carries a sign. -/
def Sign.kind : Sign → Kind
  | positive => .positiveInteger
  | negative => .negativeInteger

/-- The sign in front of a number, and what follows it. -/
def splitSign : List UInt8 → Sign × List UInt8
  | [] => (.positive, [])
  | c :: rest =>
    if c = Ascii.byte '-' then (.negative, rest)
    else if c = Ascii.byte '+' then (.positive, rest)
    else (.positive, c :: rest)

/-- The base that a letter after a leading zero stands for. -/
def baseOfLetter? (c : UInt8) : Option Nat :=
  if c = Ascii.byte 'x' ∨ c = Ascii.byte 'X' then some 16
  else if c = Ascii.byte 'o' ∨ c = Ascii.byte 'O' then some 8
  else if c = Ascii.byte 'b' ∨ c = Ascii.byte 'B' then some 2
  else if c = Ascii.byte 'd' ∨ c = Ascii.byte 'D' then some 10
  else none

/-- The base of an unsigned number and its digits.  A zero without a letter means base
eight and stays among the digits, so that a zero alone still has one. -/
def splitBase : List UInt8 → Nat × List UInt8
  | [] => (10, [])
  | first :: rest =>
    if first = Ascii.byte '0' then
      match rest with
      | [] => (8, [first])
      | letter :: digits =>
        match baseOfLetter? letter with
        | some base => (base, digits)
        | none => (8, first :: letter :: digits)
    else (10, first :: rest)

/-- The sign and magnitude of an integer spelled with an optional sign and base.  A text
without digits is quoted whole, an overflow by its digits. -/
def signedInteger (text : List UInt8) : Except LiteralError (Sign × Nat) :=
  let (sign, unsigned) := splitSign text
  let (base, digits) := splitBase unsigned
  match integer base digits with
  | .ok magnitude => .ok (sign, magnitude)
  | .error (.notAnInteger _) => .error (.notAnInteger (Lossy.text text))
  | .error cause => .error cause

end Literal
end SyntaxTree
