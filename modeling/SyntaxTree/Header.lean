/-
# Node headers

A header is 32 bytes: the name, the size of the whole node, the three numbers of its
position, three reserved zero bytes and the type code.  All numbers are big-endian.

    0-7  name    8-15 size    16-19 file    20-23 line    24-27 column    28-30 zero    31 type

`encode` and `decode` are inverse up to the reserved bytes, which are written as zero and
ignored, with a notice, when read.
-/
import SyntaxTree.Bytes.BigEndian
import SyntaxTree.Error
import SyntaxTree.Outcome

namespace SyntaxTree

/-! ## 1. The type -/

/-- The first 32 bytes of a node. -/
structure Header where
  name : Tag
  /-- The size of the whole node, header and padding included. -/
  size : UInt64
  position : Position
  typeCode : UInt8
  deriving DecidableEq

namespace Header

/-- The number of bytes in a header. -/
def width : Nat := 32

/-- The header of a node of a known kind. -/
def ofKind (name : Tag) (kind : Kind) (position : Position) (size : Nat) : Header :=
  ⟨name, UInt64.ofNat size, position, kind.code⟩

/-- The kind, if the type code is a known one. -/
def kind? (header : Header) : Option Kind := Kind.ofCode? header.typeCode

/-! ## 2. Writing -/

/-- The 32 bytes of a header. -/
def encode (header : Header) : List UInt8 :=
  header.name.bytes
    ++ BigEndian.encode 8 header.size.toNat
    ++ BigEndian.encode 4 header.position.file.toNat
    ++ BigEndian.encode 4 header.position.line.toNat
    ++ BigEndian.encode 4 header.position.column.toNat
    ++ [0, 0, 0]
    ++ [header.typeCode]

/-- `buffer` with the bytes from `offset` on replaced by `bytes`. -/
def splice (offset : Nat) (bytes buffer : List UInt8) : List UInt8 :=
  buffer.take offset ++ bytes ++ buffer.drop (offset + bytes.length)

/-- Writes the fields of a header one after another over the start of a buffer. -/
def writeOver (header : Header) (buffer : List UInt8) : List UInt8 :=
  buffer
    |> splice 0 header.name.bytes
    |> splice 8 (BigEndian.encode 8 header.size.toNat)
    |> splice 16 (BigEndian.encode 4 header.position.file.toNat)
    |> splice 20 (BigEndian.encode 4 header.position.line.toNat)
    |> splice 24 (BigEndian.encode 4 header.position.column.toNat)
    |> splice 28 [0, 0, 0]
    |> splice 31 [header.typeCode]

/-! ## 3. Reading -/

/-- The `count` bytes of a buffer from `offset` on. -/
def field (buffer : List UInt8) (offset count : Nat) : List UInt8 :=
  (buffer.drop offset).take count

/-- The fields of a header at the start of a buffer. -/
def read (buffer : List UInt8) : Header where
  name := Tag.ofBytes (field buffer 0 8)
  size := UInt64.ofNat (BigEndian.decode (field buffer 8 8))
  position :=
    { file := UInt32.ofNat (BigEndian.decode (field buffer 16 4))
      line := UInt32.ofNat (BigEndian.decode (field buffer 20 4))
      column := UInt32.ofNat (BigEndian.decode (field buffer 24 4)) }
  typeCode := UInt8.ofNat (BigEndian.decode (field buffer 31 1))

/-- The reserved bytes of a header at the start of a buffer. -/
def reserved (buffer : List UInt8) : List UInt8 := field buffer 28 3

/-- Reads the header at the start of a buffer.  Reserved bytes that are not zero are
reported and otherwise ignored. -/
def decode (buffer : List UInt8) : Outcome DecodeError Header :=
  if buffer.length < width then .fail (.tooShort buffer.length)
  else
    let header := read buffer
    let notices :=
      if (reserved buffer).any (· != 0) then [Notice.reservedBytes header.name] else []
    ⟨notices, .ok header⟩

@[simp] theorem length_encode (header : Header) : header.encode.length = width := by
  simp [encode, header.name.length_bytes, width]

end Header
end SyntaxTree
