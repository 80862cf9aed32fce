/-
# Real literals

A real number is spelled by an optional sign, then `inf`, `infinity` or `nan` in any case, or
decimal digits with an optional point and an optional exponent.  `Numeral.ofChars?` reads a text
that is such a number as a whole.

A literal need not be one as a whole: blanks in front are skipped, and whatever follows the longest
start that spells a number is ignored.  `Opening.scan` finds how long this start is.

The number is rounded to the nearest double.  A decimal that rounds past the largest double
is an overflow, and one other than zero that rounds to zero is an underflow.
-/
import SyntaxTree.Bytes.BigEndian
import SyntaxTree.Decimal.Binary64
import SyntaxTree.Decimal.Whole
import SyntaxTree.Literal.Error
import SyntaxTree.Text.Blank
import SyntaxTree.Text.Lossy

namespace SyntaxTree
namespace Literal

/-! ## 1. Spelled numbers -/

/-- The size of a spelled number. -/
inductive Magnitude where
  | infinity
  | nan
  /-- Digits before and after the point, and the exponent. -/
  | decimal (whole fraction : List Char) (exponent : Int)
  deriving DecidableEq, Repr

/-- A spelled number. -/
structure Numeral where
  negative : Bool
  magnitude : Magnitude
  deriving DecidableEq, Repr

/-- The sign at the start of a text, and what follows it. -/
def takeSign : List Char → Bool × List Char
  | '-' :: rest => (true, rest)
  | '+' :: rest => (false, rest)
  | cs => (false, cs)

/-- The exponent that a text spells, zero if it is empty. -/
def exponentOf? : List Char → Option Int
  | [] => some 0
  | c :: rest =>
    let (negative, digits) := takeSign rest
    if (c = 'e' ∨ c = 'E') ∧ digits ≠ [] ∧ digits.all Decimal.isDigit then
      let size : Int := Decimal.value digits
      some (if negative then -size else size)
    else none

/-- The digits behind a point at the start of a text, and what follows them. -/
def takeFraction : List Char → List Char × List Char
  | '.' :: places => (places.takeWhile Decimal.isDigit, places.dropWhile Decimal.isDigit)
  | cs => ([], cs)

/-- The decimal that a text spells: digits with an optional point and exponent. -/
def decimalOf? (cs : List Char) : Option Magnitude :=
  let whole := cs.takeWhile Decimal.isDigit
  let (fraction, rest) := takeFraction (cs.dropWhile Decimal.isDigit)
  if whole.isEmpty && fraction.isEmpty then none
  else (exponentOf? rest).map (.decimal whole fraction)

/-- The size that a text without a sign spells. -/
def Magnitude.ofChars? (cs : List Char) : Option Magnitude :=
  let word := cs.map Char.toLower
  if word = "infinity".toList ∨ word = "inf".toList then some .infinity
  else if word = "nan".toList then some .nan
  else decimalOf? cs

/-- The number that a text spells. -/
def Numeral.ofChars? (cs : List Char) : Option Numeral :=
  let (negative, unsigned) := takeSign cs
  (Magnitude.ofChars? unsigned).map (Numeral.mk negative)

/-! ## 2. The longest number at the start of a text -/

/-- The start of a text that spells a number: its length, or zero if there is none, whether it is a
word, and whether it has a digit other than zero before the exponent. -/
structure Opening where
  length : Nat
  named : Bool
  nonzero : Bool
  deriving DecidableEq, Repr

namespace Opening

/-- The number of digits at the start of a text. -/
def digitCount (cs : List Char) : Nat := (cs.takeWhile Decimal.isDigit).length

/-- The length of a sign at the start of a text. -/
def signLength : List Char → Nat
  | '-' :: _ => 1
  | '+' :: _ => 1
  | _ => 0

/-- The length of digits with an optional point at the start of a text.  A point without digits
does not count. -/
def mantissaLength (cs : List Char) : Nat :=
  let whole := digitCount cs
  match cs.drop whole with
  | '.' :: places =>
    let fraction := digitCount places
    if whole + fraction = 0 then 0 else whole + 1 + fraction
  | _ => whole

/-- The length of an exponent at the start of a text.  An exponent without digits does not count. -/
def exponentLength : List Char → Nat
  | [] => 0
  | c :: rest =>
    if c = 'e' ∨ c = 'E' then
      let sign := signLength rest
      let digits := digitCount (rest.drop sign)
      if digits = 0 then 0 else 1 + sign + digits
    else 0

/-- Whether a text starts with a word, in any case of ASCII letters. -/
def startsWith (cs : List Char) (word : String) : Bool :=
  (cs.take word.length).map Char.toLower == word.toList

/-- The longest start of a text that spells a number without a sign. -/
def ofUnsigned (cs : List Char) : Opening :=
  match ["infinity", "inf", "nan"].find? (startsWith cs) with
  | some word => ⟨word.length, true, true⟩
  | none =>
    let mantissa := mantissaLength cs
    if mantissa = 0 then ⟨0, false, false⟩
    else
      ⟨mantissa + exponentLength (cs.drop mantissa), false,
        (cs.take mantissa).any fun c => '1' ≤ c && c ≤ '9'⟩

/-- The longest start of a text that spells a number. -/
def scan (cs : List Char) : Opening :=
  let sign := signLength cs
  let opening := ofUnsigned (cs.drop sign)
  if opening.length = 0 then opening else { opening with length := sign + opening.length }

end Opening

/-! ## 3. Values -/

/-- The double nearest to a number. -/
def Numeral.toBinary64 : Numeral → Binary64
  | ⟨negative, .infinity⟩ => .ofMagnitude negative Binary64.infinityBits
  | ⟨negative, .nan⟩ => .ofMagnitude negative Binary64.nanBits
  | ⟨negative, .decimal whole fraction exponent⟩ =>
    .ofDecimal negative (Decimal.value (whole ++ fraction)) (exponent - fraction.length)

/-- The double that a text starts with. -/
def real (text : List UInt8) : Except LiteralError Binary64 :=
  let cs := dropBlanks (Lossy.chars text)
  let opening := Opening.scan cs
  if opening.length = 0 then .error (.notAReal (Lossy.text text))
  else
    match Numeral.ofChars? (cs.take opening.length) with
    | none => .error (.notAReal (Lossy.text text))
    | some numeral =>
      let value := numeral.toBinary64
      if value.isInfinite && !opening.named then .error (.realOverflow (Lossy.text text))
      else if value.isZero && opening.nonzero then .error (.realUnderflow (Lossy.text text))
      else .ok value

/-- The eight bytes of a double. -/
def realPayload (value : Binary64) : List UInt8 := BigEndian.encode 8 value.bits.toNat

end Literal
end SyntaxTree
