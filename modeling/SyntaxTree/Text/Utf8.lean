/-
# UTF-8 with sequences of up to six bytes

The encoder accepts every code point of at most 31 bits, surrogates and values beyond the
Unicode range included, and spends the fewest bytes whose payload bits hold it: 7, 11, 16,
21, 26 or 31 bits in one to six bytes.

`ByteClass` sorts single bytes by their run of leading one bits.  The same classes decide
which bytes move the cursor one column to the right: printable ASCII and every byte that
starts a sequence.
-/
namespace SyntaxTree
namespace Utf8

/-! ## 1. Encoding code points -/

/-- The number of bytes that encode a code point, `none` past 31 bits. -/
def encodedLength (codePoint : Nat) : Option Nat :=
  if codePoint < 0x80 then some 1
  else if codePoint < 0x800 then some 2
  else if codePoint < 0x10000 then some 3
  else if codePoint < 0x200000 then some 4
  else if codePoint < 0x4000000 then some 5
  else if codePoint < 0x80000000 then some 6
  else none

/-- The marker bits of the first byte of a sequence of the given length. -/
def leadMarker : Nat → Nat
  | 2 => 0xC0
  | 3 => 0xE0
  | 4 => 0xF0
  | 5 => 0xF8
  | 6 => 0xFC
  | _ => 0

/-- The low `count` groups of six bits as continuation bytes, most significant first. -/
def continuations : Nat → Nat → List UInt8
  | 0, _ => []
  | count + 1, codePoint =>
    UInt8.ofNat (0x80 + codePoint >>> (6 * count) % 64) :: continuations count codePoint

/-- The sequence of `length` bytes for a code point. -/
def sequence (length codePoint : Nat) : List UInt8 :=
  UInt8.ofNat (leadMarker length + codePoint >>> (6 * (length - 1)))
    :: continuations (length - 1) codePoint

/-- The encoding of a code point, `none` past 31 bits. -/
def encode (codePoint : Nat) : Option (List UInt8) :=
  (encodedLength codePoint).map fun length => sequence length codePoint

/-- The encoding of one character. -/
def ofChar (c : Char) : List UInt8 := (encode c.toNat).getD []

/-- The bytes of a list of characters. -/
def ofChars (cs : List Char) : List UInt8 := cs.flatMap ofChar

/-- The bytes of a string. -/
def ofString (s : String) : List UInt8 := ofChars s.toList

/-! ## 2. Classes of bytes -/

/-- What one byte says about the sequence it stands in. -/
inductive ByteClass where
  /-- A complete one-byte sequence. -/
  | single (byte : UInt8)
  /-- A continuation byte with its six payload bits. -/
  | continuation (payload : UInt8)
  /-- The first byte of a longer sequence, with the number of bytes that follow. -/
  | leading (following : Nat)
  /-- A byte that stands in no sequence. -/
  | invalid
  deriving DecidableEq, Repr

/-- Sorts a byte by its run of leading one bits. -/
def ByteClass.ofByte (byte : UInt8) : ByteClass :=
  if byte < 0x80 then .single byte
  else if byte < 0xC0 then .continuation (byte &&& 0x3F)
  else if byte < 0xE0 then .leading 1
  else if byte < 0xF0 then .leading 2
  else if byte < 0xF8 then .leading 3
  else if byte < 0xFC then .leading 4
  else if byte < 0xFE then .leading 5
  else .invalid

/-- Whether a byte of this class shows as a new character: printable ASCII and every byte
that is neither ASCII nor a continuation. -/
def ByteClass.advancesColumn : ByteClass → Bool
  | .single byte => 0x20 ≤ byte && byte ≤ 0x7E
  | .continuation _ => false
  | .leading _ => true
  | .invalid => true

end Utf8
end SyntaxTree
